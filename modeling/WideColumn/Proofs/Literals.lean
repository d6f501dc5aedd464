import WideColumn.Proofs.Answers
import WideColumn.Proofs.Value

/-!
# `WideColumn.Proofs.Literals`: literals and bound variables

A literal can be handed over as one more variable that holds its bytes. The bytes a
literal is read to pass the check that a bound value has to pass (`FieldType.check_of_parse`),
and compilation opens no term (`Proofs.Correspondence`), so nothing tells the two queries
apart. The theorems:

* `Query.handOver`: the query with all its literals handed over, one after the other.
* `Query.handedOver_handOver`: this is a query whose literals have been handed over.
* `Term.HandedOver.value_eq`: a term that has been handed over stands for what it stood for.
-/

set_option autoImplicit false

namespace WideColumn

namespace Term

/-- There is a variable to bind, or the literal is one of the field's type. -/
def Ready (field : Field) (vars : List Bytes) : Term → Prop
  | .literal text => ∃ bytes, field.type.parse text = .ok bytes
  | .bind index => index < vars.length

/-- The literal becomes the variable after all others. -/
def handOver (field : Field) : Term → StateM (List Bytes) Term
  | .bind index => return .bind index
  | .literal text =>
    match field.type.parse text with
    | .ok bytes => modifyGet fun vars => (.bind vars.length, vars ++ [bytes])
    | .error _ => return .literal text

/-- A bound variable is left as it is, and a literal has become a variable past the others
that holds its bytes. -/
inductive HandedOver (field : Field) (vars vars' : List Bytes) : Term → Term → Prop
  | bind (index : Nat) (bound : index < vars.length) :
    HandedOver field vars vars' (.bind index) (.bind index)
  | literal (text : String) (bytes : Bytes) (index : Nat)
    (parsed : field.type.parse text = .ok bytes) (fresh : vars.length ≤ index)
    (stored : vars'[index]? = some bytes) :
    HandedOver field vars vars' (.literal text) (.bind index)

variable {field : Field} {vars vars' more : List Bytes} {term term' : Term}

/-- Further variables change nothing. -/
theorem HandedOver.append (h : term.HandedOver field vars vars' term') (more : List Bytes) :
    term.HandedOver field vars (vars' ++ more) term' := by
  cases h with
  | bind index bound => exact .bind index bound
  | literal text bytes index parsed fresh stored =>
      obtain ⟨hlt, -⟩ := List.getElem?_eq_some_iff.mp stored
      refine .literal text bytes index parsed fresh ?_
      rw [List.getElem?_append_left hlt, stored]

/-- The two terms stand for the same bytes. -/
theorem HandedOver.value_eq (h : term.HandedOver field vars vars' term')
    (hextended : vars <+: vars') : term'.value field vars' = term.value field vars := by
  cases h with
  | bind index bound =>
      obtain ⟨more, rfl⟩ := hextended
      simp only [value, List.getElem?_append_left bound, List.getElem?_eq_getElem bound]
  | literal text bytes index parsed fresh stored =>
      -- What a literal is read to is a value that may be bound.
      simp only [value, stored, parsed, FieldType.check_of_parse parsed]
      rfl

end Term

/-! ### Handing over all literals -/

/-- A step of a traversal keeps the variables there are, and leaves `Rel` between what it is
given and what it returns, whatever variables are added later. -/
structure HandsOver {α : Type} (vars : List Bytes) (Rel : List Bytes → α → α → Prop)
    (f : α → StateM (List Bytes) α) (x : α) : Prop where
  extends_vars : ∀ before, vars <+: before → before <+: ((f x).run before).2
  related : ∀ before, vars <+: before → Rel ((f x).run before).2 x ((f x).run before).1

/-- Handing over a list is handing over its elements one after the other. Variables that come
later do not change what has been handed over. -/
theorem HandsOver.mapM {α : Type} {vars : List Bytes} {Rel : List Bytes → α → α → Prop}
    {f : α → StateM (List Bytes) α} {xs : List α} (h : ∀ x ∈ xs, HandsOver vars Rel f x)
    (append : ∀ {vars' x y}, Rel vars' x y → ∀ more, Rel (vars' ++ more) x y) :
    HandsOver vars (fun vars' => List.Forall₂ (Rel vars')) (List.mapM f) xs := by
  induction xs with
  | nil => exact ⟨fun before _ => List.prefix_rfl, fun before _ => .nil⟩
  | cons x xs ih =>
      obtain ⟨hx, hxs⟩ := List.forall_mem_cons.mp h
      have hrest := ih hxs
      refine ⟨fun before hbefore => ?_, fun before hbefore => ?_⟩
      · have hfirst := hx.extends_vars before hbefore
        have hlast := hrest.extends_vars _ (hbefore.trans hfirst)
        rw [List.mapM_cons]
        exact hfirst.trans hlast
      · have hfirst := hx.extends_vars before hbefore
        -- The other elements only add variables to those of the first one.
        obtain ⟨more, hmore⟩ := hrest.extends_vars _ (hbefore.trans hfirst)
        have hrelated := append (hx.related before hbefore) more
        rw [hmore] at hrelated
        rw [List.mapM_cons]
        exact .cons hrelated (hrest.related _ (hbefore.trans hfirst))

/-- A literal is handed over as a new variable, which has its value, and a variable stays. -/
theorem Term.handsOver {field : Field} {vars : List Bytes} {term : Term}
    (hready : term.Ready field vars) :
    HandsOver vars (Term.HandedOver field vars) (Term.handOver field) term := by
  cases term with
  | bind index => exact ⟨fun before _ => List.prefix_rfl, fun before _ => .bind index hready⟩
  | literal text =>
      obtain ⟨bytes, hbytes⟩ := hready
      have hrun : ∀ before : List Bytes, ((Term.literal text).handOver field).run before =
          (.bind before.length, before ++ [bytes]) := by
        intro before
        simp only [handOver, hbytes]
        rfl
      refine ⟨fun before _ => ?_, fun before hbefore => ?_⟩
      · rw [hrun]
        exact List.prefix_append before [bytes]
      · rw [hrun]
        exact .literal text bytes before.length hbytes hbefore.length_le (by simp)

namespace Relation

/-- The terms of a relation are ready to be handed over. -/
def Ready (settings : Settings) (layout : Layout) (vars : List Bytes) (relation : Relation) :
    Prop :=
  ∀ field ∈ layout.fields, field.name = settings.normalize relation.field →
    ∀ comparison ∈ relation.comparisons, comparison.2.Ready field vars

/-- The relation on a field with its literals handed over. -/
def handOverAs (field : Field) : Relation → StateM (List Bytes) Relation
  | .compare name operator value => return .compare name operator (← value.handOver field)
  | .oneOf name values => return .oneOf name (← values.mapM (Term.handOver field))

/-- The relation with its literals handed over. -/
def handOver (settings : Settings) (layout : Layout) (relation : Relation) :
    StateM (List Bytes) Relation :=
  match layout.lookup (settings.normalize relation.field) with
  | some field => relation.handOverAs field
  | none => return relation

/-- The two relations differ in literals that have been handed over. -/
abbrev HandedOver (settings : Settings) (layout : Layout) (vars vars' : List Bytes) :
    Relation → Relation → Prop :=
  Relation.Alike settings fun name term term' =>
    ∀ field ∈ layout.fields, field.name = name → term.HandedOver field vars vars' term'

variable {settings : Settings} {layout : Layout} {vars : List Bytes} {relation : Relation}

/-- A relation is handed over term by term. -/
theorem handsOver {field : Field} (hfield : field ∈ layout.fields)
    (hname : field.name = settings.normalize relation.field)
    (hready : relation.Ready settings layout vars) :
    HandsOver vars (Relation.HandedOver settings layout vars)
      (Relation.handOver settings layout) relation := by
  have hterms := hready field hfield hname
  -- Fields with the name of the relation are this one, so its type is that of the literal.
  have honly : ∀ other ∈ layout.fields,
      other.name = settings.normalize relation.field → other = field :=
    fun other hother h => Layout.eq_of_name_eq hother hfield (h.trans hname.symm)
  have hrun : relation.handOver settings layout = relation.handOverAs field := by
    rw [handOver, Layout.lookup_eq_some_iff.mpr ⟨hfield, hname⟩]
  cases relation with
  | compare name operator value =>
      have hvalue := Term.handsOver (hterms _ List.mem_cons_self)
      refine ⟨fun before hbefore => ?_, fun before hbefore => ?_⟩
      · rw [hrun]
        exact hvalue.extends_vars before hbefore
      · rw [hrun]
        refine .compare name name operator value _ rfl fun other hother h => ?_
        rw [honly other hother h]
        exact hvalue.related before hbefore
  | oneOf name values =>
      have hvalues : ∀ value ∈ values,
          HandsOver vars (Term.HandedOver field vars) (Term.handOver field) value := by
        intro value hvalue
        exact Term.handsOver (hterms _ (List.mem_map.mpr ⟨value, hvalue, rfl⟩))
      have hall := HandsOver.mapM hvalues fun h more => h.append more
      refine ⟨fun before hbefore => ?_, fun before hbefore => ?_⟩
      · rw [hrun]
        exact hall.extends_vars before hbefore
      · rw [hrun]
        refine .oneOf name name values _ rfl ((hall.related before hbefore).imp ?_)
        intro value value' hvalue other hother h
        rw [honly other hother h]
        exact hvalue

/-- More variables change nothing that a relation has been handed over to. -/
theorem HandedOver.append {vars' : List Bytes} {other : Relation}
    (h : relation.HandedOver settings layout vars vars' other) (more : List Bytes) :
    relation.HandedOver settings layout vars (vars' ++ more) other := by
  cases h with
  | compare name name' operator value value' named terms =>
      exact .compare name name' operator value value' named fun field hfield hname =>
        (terms field hfield hname).append more
  | oneOf name name' values values' named terms =>
      exact .oneOf name name' values values' named <| terms.imp
        fun value value' hvalue field hfield hname => (hvalue field hfield hname).append more

end Relation

namespace Query

/-- Every variable there is to bind is given, and every literal is one of its field's
type. -/
def Ready (query : Query) (settings : Settings) (layout : Layout) (vars : List Bytes) : Prop :=
  ∀ relation ∈ query.conditions, relation.Ready settings layout vars

/-- The query with all its literals handed over, one after the other. -/
def handOver (query : Query) (settings : Settings) (layout : Layout) :
    StateM (List Bytes) Query := do
  let conditions ← query.conditions.mapM (Relation.handOver settings layout)
  return { query with conditions }

/-- The two queries differ in literals that have become variables past those of the first. -/
structure HandedOver (query : Query) (settings : Settings) (layout : Layout)
    (vars vars' : List Bytes) (other : Query) : Prop where
  same : other = { query with conditions := other.conditions }
  extended : vars <+: vars'
  conditions : List.Forall₂ (Relation.HandedOver settings layout vars vars') query.conditions
    other.conditions

variable {query other : Query} {settings : Settings} {layout : Layout}
  {vars vars' : List Bytes}

/-- All literals of a query that is ready can be handed over. -/
theorem handedOver_handOver (hresolved : Plan.Resolved settings layout query.conditions)
    (hready : query.Ready settings layout vars) :
    query.HandedOver settings layout vars ((query.handOver settings layout).run vars).2
      ((query.handOver settings layout).run vars).1 := by
  have hrelations : ∀ relation ∈ query.conditions,
      HandsOver vars (Relation.HandedOver settings layout vars)
        (Relation.handOver settings layout) relation := by
    intro relation hrelation
    obtain ⟨field, hfield, hname, -⟩ := hresolved relation hrelation
    exact Relation.handsOver hfield hname (hready relation hrelation)
  have hall := HandsOver.mapM hrelations fun h more => h.append more
  exact ⟨rfl, hall.extends_vars vars List.prefix_rfl, hall.related vars List.prefix_rfl⟩

/-- The two queries correspond. -/
theorem HandedOver.alike (h : query.HandedOver settings layout vars vars' other) :
    query.Alike settings (fun name term term' => ∀ field ∈ layout.fields, field.name = name →
      term.HandedOver field vars vars' term') other where
  table := by rw [h.same]
  selection := by
    rw [h.same]
    exact List.forall₂_same.mpr fun name _ => rfl
  counted _ := by rw [h.same]
  conditions := h.conditions
  limit := by rw [h.same]
  consistency := by rw [h.same]
  reversed := by rw [h.same]
  count := by rw [h.same]

end Query

namespace Plan

variable {settings : Settings} {query : Query} {layout : Layout} {indexed : List String}
  {plan : Plan} {vars : List Bytes}

/-- Literals and bound variables are interchangeable. The literals of an accepted query can be
handed over, as variables past those there are; and a query of which the literals have been
handed over is accepted, and gives the same answers, whatever variables follow. -/
theorem handedOver_answers (h : compile settings query layout indexed = .ok plan)
    (hready : query.Ready settings layout vars) :
    query.HandedOver settings layout vars ((query.handOver settings layout).run vars).2
      ((query.handOver settings layout).run vars).1 ∧
    ∀ vars' other, query.HandedOver settings layout vars vars' other →
      ∃ plan', compile settings other layout indexed = .ok plan' ∧
        ∀ more, SameAnswers plan plan' vars (vars' ++ more) := by
  obtain ⟨bound, hcompiled⟩ := compile_eq_ok h
  refine ⟨Query.handedOver_handOver (bindConditions_resolved hcompiled.conditions) hready,
    fun vars' other hother => ?_⟩
  have halike := compile_alike hother.alike layout indexed
  rw [h] at halike
  obtain ⟨plan', hplan', halike⟩ := halike.exists_ok
  refine ⟨plan', hplan', fun more => halike.sameAnswers ?_⟩
  intro field hfield term term' hterm
  rw [hcompiled.layout_eq] at hfield
  have hhanded := (hterm field hfield rfl).append more
  exact hhanded.value_eq (hother.extended.trans (List.prefix_append vars' more))

/-- The tickets of an owner, with both priorities bound. -/
def boundTickets : Query :=
  { urgentTickets with
    conditions := [.compare ⟨"priority", true⟩ .lte (.bind 1),
      .compare ⟨"owner", true⟩ .eq (.bind 0),
      .compare ⟨"priority", true⟩ .gt (.bind 2)] }

/-- Both priorities are handed over, after the owner. -/
theorem handedOver_answers_tickets :
    ∃ plan plan',
      compile { identifierCase := .preserve } urgentTickets tickets ["owner"] = .ok plan ∧
      compile { identifierCase := .preserve } boundTickets tickets ["owner"] = .ok plan' ∧
      ∀ more, SameAnswers plan plan' [[0x61]] ([[0x61], [0, 0, 0, 4], [0, 0, 0, 1]] ++ more) := by
  have hready : urgentTickets.Ready { identifierCase := .preserve } tickets [[0x61]] := by
    have hpriority : ∀ text, (∃ bytes, FieldType.int32.parse text = .ok bytes) →
        ∀ field ∈ tickets.fields, field.name = "priority" →
          (Term.literal text).Ready field [[0x61]] := by
      intro text hparse field hfield hname
      have honly : field = ⟨"priority", .metadata, .int32⟩ :=
        Layout.eq_of_name_eq hfield (by decide) hname
      rw [honly]
      exact hparse
    simp only [Query.Ready, urgentTickets, List.forall_mem_cons, Relation.Ready,
      Relation.comparisons, List.not_mem_nil, false_implies, implies_true, and_true]
    refine ⟨hpriority "4" ⟨_, rfl⟩, fun field hfield hname => Nat.one_pos, ?_⟩
    exact hpriority "1" ⟨_, rfl⟩
  have hanswers := @handedOver_answers { identifierCase := .preserve } urgentTickets tickets
    ["owner"] _ [[0x61]] rfl hready
  obtain ⟨plan', hplan', hsame⟩ := hanswers.2 _ boundTickets hanswers.1
  exact ⟨_, plan', rfl, hplan', hsame⟩

end Plan

end WideColumn
