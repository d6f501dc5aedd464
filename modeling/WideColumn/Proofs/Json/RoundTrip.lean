import WideColumn.Json.Reader
import WideColumn.Proofs.Json.Token

/-!
# `WideColumn.Proofs.Json.RoundTrip`: documents read back

A document is written as the same words with and without line breaks, and reading these words
gives the document. So there are two halves. One is about each way to write, and says which words
a text has; the other is about the words alone. The theorems:

* `spells_compact` / `spells_pretty`: both texts of a document have its words.
* `run_tokens`: at the words of a document the reader gets from a place for a value to the
  document, whatever containers are open.
* `parse?_compact` / `parse?_pretty`: what is written is read back.

They are about the documents that are written for values, whose strings are escaped texts and
whose numbers are in decimal.
-/

set_option autoImplicit false

namespace WideColumn.Json

/-- The documents that are written for values. -/
inductive Written : Json → Prop
  | null : Written .null
  | bool (value : Bool) : Written (.bool value)
  | number (n : Nat) : Written (.number (Text.Decimal.digits n))
  | string (text : List Char) : Written (.string (escape text))
  | array {items : List Json} (hitems : ∀ item ∈ items, Written item) : Written (.array items)
  | object {members : List (List Char × Json)}
      (hnames : ∀ member ∈ members, ∃ text, member.1 = escape text)
      (hvalues : ∀ member ∈ members, Written member.2) : Written (.object members)

mutual

/-- The words of a document. -/
def tokens : Json → List Token
  | .array items => .openBracket :: (itemTokens items ++ [.closeBracket])
  | .object members => .openBrace :: (memberTokens members ++ [.closeBrace])
  | .null => [.leaf .null]
  | .bool value => [.leaf (.bool value)]
  | .number literal => [.leaf (.number literal)]
  | .string body => [.leaf (.string body)]

/-- The words of the items of an array. -/
def itemTokens : List Json → List Token
  | [] => []
  | [item] => tokens item
  | item :: next :: rest => tokens item ++ .comma :: itemTokens (next :: rest)

/-- The words of the members of an object. -/
def memberTokens : List (List Char × Json) → List Token
  | [] => []
  | [(name, value)] => .leaf (.string name) :: .colon :: tokens value
  | (name, value) :: next :: rest =>
    .leaf (.string name) :: .colon :: (tokens value ++ .comma :: memberTokens (next :: rest))

end

/-! ### The words of a text -/

/-- A number ends before the marks between and after values, and before the end of a line. -/
theorem endsNumber_mark {c : Char} (hc : c ∈ [',', ':', ']', '\x7d', '\n']) (text : List Char) :
    EndsNumber (c :: text) := by
  apply endsNumber_cons
  simp only [List.mem_cons, List.not_mem_nil, or_false] at hc
  rcases hc with rfl | rfl | rfl | rfl | rfl <;> decide

/-- What is written one by one, with a comma after each but the last, has the words of all. -/
theorem spells_separated {α : Type} {one : α → List Char} {words : α → List Token}
    {all : List α → List Char} {allWords : List α → List Token}
    (hnil : all [] = [] ∧ allWords [] = [])
    (hlast : ∀ a, all [a] = one a ∧ allWords [a] = words a)
    (hmore : ∀ a next rest, all (a :: next :: rest) = one a ++ ',' :: all (next :: rest) ∧
      allWords (a :: next :: rest) = words a ++ .comma :: allWords (next :: rest))
    {items : List α} (h : ∀ a ∈ items, Spells (one a) (words a)) :
    Spells (all items) (allWords items) := by
  induction items with
  | nil =>
      rw [hnil.1, hnil.2]
      exact .nil
  | cons item rest ih =>
      obtain ⟨hitem, hrest⟩ := List.forall_mem_cons.mp h
      cases rest with
      | nil =>
          rw [(hlast item).1, (hlast item).2]
          exact hitem
      | cons next rest =>
          rw [(hmore item next rest).1, (hmore item next rest).2]
          refine hitem.append ((ih hrest).mark rfl fun _ => rfl) fun after _ => ?_
          exact endsNumber_mark (by decide) _

/-- A member is its name, a colon and its value. -/
theorem Spells.member {name value : List Char} {words : List Token}
    (hname : ∃ text, name = escape text) (h : Spells value words) :
    Spells (quoted name ++ ':' :: value) (.leaf (.string name) :: .colon :: words) := by
  obtain ⟨text, rfl⟩ := hname
  exact (spells_quoted text).append (h.mark rfl fun _ => rfl) fun _ _ =>
    endsNumber_mark (by decide) _

/-- A word of one character behind others. -/
theorem Spells.close {text : List Char} {words : List Token} {c : Char} {token : Token}
    (h : Spells text words) (hgap : isGap c = false)
    (hmark : ∀ rest, readToken (c :: rest) = some (token, rest))
    (hends : c ∈ [',', ':', ']', '\x7d', '\n']) : Spells (text ++ [c]) (words ++ [token]) :=
  h.append (.mark hgap hmark .nil) fun _ _ => endsNumber_mark hends _

/-- The same on a line of its own. -/
theorem Spells.closeLine {text : List Char} {words : List Token} {c : Char} {token : Token}
    (h : Spells text words) (hgap : isGap c = false)
    (hmark : ∀ rest, readToken (c :: rest) = some (token, rest)) (depth : Nat) :
    Spells (text ++ lineStart depth ++ [c]) (words ++ [token]) := by
  rw [List.append_assoc]
  have hclose : Spells [c] [token] := .mark hgap hmark .nil
  exact h.append (hclose.onLine depth) fun _ _ =>
    endsNumber_mark (c := '\n') (by decide) _

/-- A document in compact form spells its tokens. -/
theorem spells_compact {document : Json} (h : document.Written) :
    Spells document.compact document.tokens := by
  induction h with
  | null =>
      rw [compact, tokens]
      exact fun rest _ => tokens?_of_readToken rfl rfl
  | bool value =>
      cases value with
      | true =>
          rw [compact, tokens]
          exact fun rest _ => tokens?_of_readToken rfl rfl
      | false =>
          rw [compact, tokens]
          exact fun rest _ => tokens?_of_readToken rfl rfl
  | number n =>
      rw [compact, tokens]
      exact spells_digits n
  | string text =>
      rw [compact, tokens]
      exact spells_quoted text
  -- The induction is on the document: what is inside has been spelt already.
  | @array items hitems ih =>
      have hall : Spells (compactItems items) (itemTokens items) :=
        spells_separated ⟨by rw [compactItems], by rw [itemTokens]⟩
          (fun a => ⟨by rw [compactItems], by rw [itemTokens]⟩)
          (fun a next rest => ⟨by rw [compactItems], by rw [itemTokens]⟩) ih
      rw [compact, tokens]
      exact (hall.close rfl (fun _ => rfl) (by decide)).mark rfl fun _ => rfl
  | @object members hnames hvalues ih =>
      -- A member is its name, a colon and its value.
      have hmembers : ∀ member ∈ members, Spells (quoted member.1 ++ ':' :: compact member.2)
          (.leaf (.string member.1) :: .colon :: tokens member.2) :=
        fun member hmember => .member (hnames member hmember) (ih member hmember)
      have hall : Spells (compactMembers members) (memberTokens members) := by
        refine spells_separated ⟨by rw [compactMembers], by rw [memberTokens]⟩
          (fun a => ⟨by rw [compactMembers], by rw [memberTokens]⟩)
          (fun a next rest => ⟨?_, by rw [memberTokens]; rfl⟩) hmembers
        rw [compactMembers, List.append_assoc]
        rfl
      rw [compact, tokens]
      exact (hall.close rfl (fun _ => rfl) (by decide)).mark rfl fun _ => rfl

/-- Line breaks stand in front of items, members and closing brackets only. -/
theorem spells_prettyAt {document : Json} (h : document.Written) (depth : Nat) :
    Spells (prettyAt depth document) document.tokens := by
  induction h generalizing depth with
  | null => simpa only [prettyAt, compact] using spells_compact .null
  | bool value =>
      cases value with
      | true => simpa only [prettyAt, compact] using spells_compact (.bool true)
      | false => simpa only [prettyAt, compact] using spells_compact (.bool false)
  | number n => simpa only [prettyAt, compact] using spells_compact (.number n)
  | string text => simpa only [prettyAt, compact] using spells_compact (.string text)
  | @array items hitems ih =>
      -- The items are one container further in.
      have hlines : ∀ item ∈ items, Spells (lineStart (depth + 1) ++ prettyAt (depth + 1) item)
          item.tokens := fun item hitem => (ih item hitem _).onLine _
      have hall : Spells (prettyItems (depth + 1) items) (itemTokens items) :=
        spells_separated ⟨by rw [prettyItems], by rw [itemTokens]⟩
          (fun a => ⟨by rw [prettyItems], by rw [itemTokens]⟩)
          (fun a next rest => ⟨by rw [prettyItems], by rw [itemTokens]⟩) hlines
      cases items with
      | nil =>
          rw [prettyAt, tokens, itemTokens]
          exact .mark rfl (fun _ => rfl) (.mark rfl (fun _ => rfl) .nil)
      | cons item rest =>
          rw [prettyAt, tokens]
          exact (hall.closeLine rfl (fun _ => rfl) depth).mark rfl fun _ => rfl
  | @object members hnames hvalues ih =>
      have hlines : ∀ member ∈ members, Spells
          (lineStart (depth + 1) ++ quoted member.1 ++ ':' :: ' ' :: prettyAt (depth + 1) member.2)
          (.leaf (.string member.1) :: .colon :: tokens member.2) := by
        intro member hmember
        rw [List.append_assoc]
        exact (Spells.member (hnames member hmember)
          ((ih member hmember _).gap rfl)).onLine _
      have hall : Spells (prettyMembers (depth + 1) members) (memberTokens members) := by
        refine spells_separated ⟨by rw [prettyMembers], by rw [memberTokens]⟩
          (fun a => ⟨by rw [prettyMembers], by rw [memberTokens]⟩)
          (fun a next rest => ⟨?_, by rw [memberTokens]; rfl⟩) hlines
        rw [prettyMembers, List.append_assoc]
        simp only [List.append_assoc, List.cons_append]
      cases members with
      | nil =>
          rw [prettyAt, tokens, memberTokens]
          exact .mark rfl (fun _ => rfl) (.mark rfl (fun _ => rfl) .nil)
      | cons member rest =>
          rw [prettyAt, tokens]
          exact (hall.closeLine rfl (fun _ => rfl) depth).mark rfl fun _ => rfl

/-! ### The document of the words -/

/-- The state after words. -/
def run (state : State) (words : List Token) : Option State :=
  words.foldlM step state

/-- A run is a step and the run after it. -/
theorem run_cons (state : State) (word : Token) (words : List Token) :
    run state (word :: words) = (step state word).bind fun next => run next words :=
  List.foldlM_cons

/-- Running through two lists is running through one after the other. -/
theorem run_append (state : State) (words more : List Token) :
    run state (words ++ more) = (run state words).bind fun next => run next more :=
  List.foldlM_append

/-- From a place for a value, the words of the document lead to the document. -/
def Runs (document : Json) : Prop :=
  ∀ frames, run (.value frames) document.tokens = some (.done document frames)

/-- The first item of an array starts as any value does. -/
theorem run_firstItem (frames : List Frame) (item : Json) (rest : List Json)
    (more : List Token) :
    run (.firstItem frames) (itemTokens (item :: rest) ++ more) =
      run (.value (.array [] :: frames)) (itemTokens (item :: rest) ++ more) := by
  have hitem : ∃ first after, item.tokens = first :: after ∧
      step (.firstItem frames) first = step (.value (.array [] :: frames)) first := by
    cases item with
    | null | bool | number | string | array | object =>
        rw [tokens]
        exact ⟨_, _, rfl, rfl⟩
  obtain ⟨first, after, hfirst, hstep⟩ := hitem
  have hwords : ∃ words, itemTokens (item :: rest) = first :: words := by
    cases rest with
    | nil => exact ⟨after, by rw [itemTokens, hfirst]⟩
    | cons next rest => exact ⟨_, by rw [itemTokens, hfirst, List.cons_append]⟩
  obtain ⟨words, hwords⟩ := hwords
  rw [hwords, List.cons_append, run_cons, run_cons, hstep]

/-- The words of items, and the closing bracket, complete the array in front of them. -/
theorem run_itemTokens {item : Json} {rest : List Json} (h : ∀ one ∈ item :: rest, Runs one)
    (front : List Json) (frames : List Frame) :
    run (.value (.array front :: frames)) (itemTokens (item :: rest) ++ [.closeBracket]) =
      some (.done (.array (front ++ item :: rest)) frames) := by
  induction rest generalizing item front with
  | nil =>
      rw [itemTokens, run_append, h item List.mem_cons_self]
      rfl
  | cons next rest ih =>
      have hnext := ih (fun one hone => h one (List.mem_cons_of_mem _ hone)) (front ++ [item])
      rw [itemTokens, List.append_assoc, run_append, h item List.mem_cons_self, Option.bind_some,
        List.cons_append, run_cons]
      rw [List.append_assoc] at hnext
      exact hnext

/-- The words of members, and the closing brace, complete the object in front of them. -/
theorem run_memberTokens {member : List Char × Json} {rest : List (List Char × Json)}
    (h : ∀ one ∈ member :: rest, Runs one.2) (front : List (List Char × Json))
    (frames : List Frame) :
    run (.name front frames) (memberTokens (member :: rest) ++ [.closeBrace]) =
      some (.done (.object (front ++ member :: rest)) frames) := by
  -- The name and the colon open a place for the value.
  have hname : ∀ words, run (.name front frames) (.leaf (.string member.1) :: .colon :: words) =
      run (.value (.object front member.1 :: frames)) words := fun words => rfl
  induction rest generalizing member front with
  | nil =>
      rw [memberTokens, List.cons_append, List.cons_append, hname, run_append,
        h member List.mem_cons_self]
      rfl
  | cons next rest ih =>
      have hnext := ih (fun one hone => h one (List.mem_cons_of_mem _ hone)) (front ++ [member])
        fun _ => rfl
      rw [memberTokens, List.cons_append, List.cons_append, hname, List.append_assoc, run_append,
        h member List.mem_cons_self, Option.bind_some, List.cons_append, run_cons]
      rw [List.append_assoc] at hnext
      exact hnext

/-- The words of a document lead to it from any place for a value. -/
theorem run_tokens {document : Json} (h : document.Written) : Runs document := by
  induction h with
  | null | bool | number | string =>
      intro frames
      rw [tokens]
      rfl
  | @array items hitems ih =>
      intro frames
      rw [tokens, run_cons]
      show run (.firstItem frames) (itemTokens items ++ [.closeBracket]) = _
      -- Where the first item could start, an empty array ends.
      cases items with
      | nil =>
          rw [itemTokens]
          rfl
      | cons item rest =>
          rw [run_firstItem]
          exact run_itemTokens ih [] frames
  | @object members hnames hvalues ih =>
      intro frames
      rw [tokens, run_cons]
      show run (.firstName frames) (memberTokens members ++ [.closeBrace]) = _
      cases members with
      | nil =>
          rw [memberTokens]
          rfl
      | cons member rest =>
          have hfirst : run (.firstName frames) (memberTokens (member :: rest) ++ [.closeBrace]) =
              run (.name [] frames) (memberTokens (member :: rest) ++ [.closeBrace]) := by
            cases rest with
            | nil =>
                rw [memberTokens]
                rfl
            | cons next rest =>
                rw [memberTokens]
                rfl
          rw [hfirst]
          exact run_memberTokens ih [] frames

/-! ### Texts read back -/

/-- A text with the words of a document is read as the document. -/
theorem parse?_of_spells {document : Json} (h : document.Written) {text : List Char}
    (hspells : Spells text document.tokens) : parse? text = some document := by
  have htokens : tokens? text = some document.tokens := by
    have hwords := hspells [] endsNumber_nil
    rw [List.append_nil, tokens?, Option.map_some, List.append_nil] at hwords
    exact hwords
  have hrun : document.tokens.foldlM step (.value []) = some (.done document []) :=
    run_tokens h []
  rw [parse?, htokens]
  simp only [Option.bind_eq_bind, Option.bind_some, hrun]

/-- A document is read back from its compact form. -/
theorem parse?_compact {document : Json} (h : document.Written) :
    parse? document.compact = some document :=
  parse?_of_spells h (spells_compact h)

/-- And from its pretty form. -/
theorem parse?_pretty {document : Json} (h : document.Written) :
    parse? document.pretty = some document :=
  parse?_of_spells h (spells_prettyAt h 0)

end WideColumn.Json
