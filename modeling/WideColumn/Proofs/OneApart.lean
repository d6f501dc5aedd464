import WideColumn.Proofs.Runs
import WideColumn.Proofs.Outcome

/-!
# `WideColumn.Proofs.OneApart`: lists that differ at one place at most

`OneApart R xs ys` says that two lists are the same, or are the same but for one place, where
the elements are related. It is what changing one cell does to a list of cells, and the steps
of reconstruction hand it on, from the cells to the rows. The theorems:

* `OneApart.map`, `OneApart.filter`, `OneApart.reverse`, `OneApart.take`: what is computed
  element by element, left out, turned round or cut off.
* `OneApart.flatten`: one part that differs at one place.
* `OneApart.mapM`: a traversal, whose error is the same.
* `runs_oneApart`: cutting cells where their leading components change, if these stay.
* `OneApart.rel`: where it does not matter that there is only one place; `getElem?_related`
  and `find?_related` are about lists whose elements are related everywhere.
-/

set_option autoImplicit false

namespace WideColumn

/-- The lists are the same but for one place at most, where their elements are related. -/
inductive OneApart {α : Type} (R : α → α → Prop) : List α → List α → Prop
  | same (xs : List α) : OneApart R xs xs
  | apart (before : List α) {x y : α} (h : R x y) (after : List α) :
      OneApart R (before ++ x :: after) (before ++ y :: after)

namespace OneApart

variable {α β : Type} {R : α → α → Prop} {S : β → β → Prop} {xs ys : List α}

/-- What is in front and behind does not matter. -/
theorem append (h : OneApart R xs ys) (before after : List α) :
    OneApart R (before ++ xs ++ after) (before ++ ys ++ after) := by
  cases h with
  | same => exact .same _
  | apart first h last =>
      have hparts := OneApart.apart (before ++ first) h (last ++ after)
      simpa only [List.append_assoc, List.cons_append] using hparts

/-- Mapping leaves one element at most that differs. -/
theorem map (h : OneApart R xs ys) {f : α → β} (hf : ∀ x y, R x y → S (f x) (f y)) :
    OneApart S (xs.map f) (ys.map f) := by
  cases h with
  | same => exact .same _
  | apart before h after =>
      rw [List.map_append, List.map_append, List.map_cons, List.map_cons]
      exact .apart _ (hf _ _ h) _

/-- What related elements have in common is the same for both lists. -/
theorem map_eq (h : OneApart R xs ys) {f : α → β} (hf : ∀ x y, R x y → f y = f x) :
    ys.map f = xs.map f := by
  cases h with
  | same => rfl
  | apart before h after =>
      rw [List.map_append, List.map_append, List.map_cons, List.map_cons, hf _ _ h]

/-- Filtering does too, if both elements are kept or neither is. -/
theorem filter (h : OneApart R xs ys) {keep : α → Bool} (hkeep : ∀ x y, R x y → keep y = keep x) :
    OneApart R (xs.filter keep) (ys.filter keep) := by
  cases h with
  | same => exact .same _
  | @apart before x y h after =>
      rw [List.filter_append, List.filter_append, List.filter_cons, List.filter_cons,
        hkeep _ _ h]
      cases keep x with
      | true => exact .apart _ h _
      | false => exact .same _

/-- Reversing moves the element that differs. -/
theorem reverse (h : OneApart R xs ys) : OneApart R xs.reverse ys.reverse := by
  cases h with
  | same => exact .same _
  | apart before h after =>
      rw [List.reverse_append, List.reverse_append, List.reverse_cons, List.reverse_cons,
        List.append_assoc, List.append_assoc]
      exact .apart _ h _

/-- Cutting off keeps it or leaves it out. -/
theorem take (h : OneApart R xs ys) (count : Nat) : OneApart R (xs.take count) (ys.take count) := by
  cases h with
  | same => exact .same _
  | apart before h after =>
      rw [List.take_append, List.take_append]
      -- The place is cut off, or it is not.
      cases count - before.length with
      | zero => exact .same _
      | succ more => exact .apart _ h _

/-- Of several lists one at most differs, and there one element. -/
theorem flatten {xss yss : List (List α)} (h : OneApart (OneApart R) xss yss) :
    OneApart R xss.flatten yss.flatten := by
  cases h with
  | same => exact .same _
  | apart before h after =>
      rw [List.flatten_append, List.flatten_append, List.flatten_cons, List.flatten_cons,
        ← List.append_assoc, ← List.append_assoc]
      exact h.append _ _

/-- Element by element, the lists have the same elements or related ones. -/
theorem rel (h : OneApart R xs ys) : List.Forall₂ (fun x y => y = x ∨ R x y) xs ys := by
  have hsame : ∀ list : List α, List.Forall₂ (fun x y => y = x ∨ R x y) list list :=
    fun list => List.forall₂_same.mpr fun _ _ => .inl rfl
  cases h with
  | same => exact hsame _
  | apart before h after =>
      exact List.rel_append (hsame before) (.cons (.inr h) (hsame after))

/-- Where a step gives the same error for related elements, or related results, a traversal
gives the same error or lists that are one apart. -/
theorem mapM {ε : Type} {f : α → Except ε β} (h : OneApart R xs ys)
    (hstep : ∀ x y, R x y → Outcome.Alike Eq S (f x) (f y)) :
    Outcome.Alike Eq (OneApart S) (xs.mapM f) (ys.mapM f) := by
  have hrefl : ∀ list : List α, Outcome.Alike Eq Eq (list.mapM f) (list.mapM f) :=
    fun list => .of_eq (fun _ => rfl) rfl
  cases h with
  | same =>
      refine (hrefl xs).imp ?_
      rintro list _ rfl
      exact .same list
  | apart before h after =>
      rename_i x y
      have hrest : Outcome.Alike Eq (OneApart S) ((x :: after).mapM f) ((y :: after).mapM f) := by
        rw [List.mapM_cons, List.mapM_cons]
        refine (hstep x y h).bind fun a b hab => (hrefl after).bind ?_
        rintro back _ rfl
        exact .ok (.apart [] hab back)
      rw [List.mapM_append, List.mapM_append]
      -- An error in front of the element that differs is the error of both.
      refine (hrefl before).bind ?_
      rintro front _ rfl
      refine hrest.bind fun back back' hback => .ok ?_
      have hparts := hback.append front []
      rwa [List.append_nil, List.append_nil] at hparts

end OneApart

/-! ### Runs and searches -/

section

variable {R : NamedCell → NamedCell → Prop} {cells others : List NamedCell}

/-- A cell in front keeps runs one apart: it joins the first run on both sides, or on
neither. -/
theorem runs_cons_oneApart (hleading : ∀ cell other, R cell other → other.leading = cell.leading)
    (h : OneApart (OneApart R) (runs cells) (runs others)) (first : NamedCell) :
    OneApart (OneApart R) (runs (first :: cells)) (runs (first :: others)) := by
  generalize hruns : runs cells = blocks at h
  generalize hruns' : runs others = blocks' at h
  cases h with
  | same =>
      rw [runs, runs, hruns, hruns']
      exact .same _
  | apart before hblock after =>
      simp only [runs, hruns, hruns']
      rcases before with _ | ⟨_ | ⟨next, run⟩, before⟩
      · -- The first run is the one that differs, perhaps in the very cell it starts with.
        cases hblock with
        | same => exact .same _
        | apart start h stop =>
            rcases start with _ | ⟨next, start⟩
            · simp only [List.nil_append, hleading _ _ h]
              split
              · exact .apart [] (.apart [first] h stop) after
              · exact .apart [[first]] (.apart [] h stop) after
            · simp only [List.nil_append, List.cons_append]
              split
              · exact .apart [] (.apart (first :: next :: start) h stop) after
              · exact .apart [[first]] (.apart (next :: start) h stop) after
      · exact .apart ([first] :: [] :: before) hblock after
      · simp only [List.cons_append]
        split
        · exact .apart ((first :: next :: run) :: before) hblock after
        · exact .apart ([first] :: (next :: run) :: before) hblock after

/-- Lists of cells that are one apart, where related cells have the same leading components,
are cut at the same places. -/
theorem runs_oneApart (hleading : ∀ cell other, R cell other → other.leading = cell.leading)
    (h : OneApart R cells others) : OneApart (OneApart R) (runs cells) (runs others) := by
  cases h with
  | same => exact .same _
  | apart before h after =>
      induction before with
      | nil =>
          simp only [List.nil_append, runs, hleading _ _ h]
          rcases runs after with _ | ⟨_ | ⟨next, run⟩, blocks⟩
          · exact .apart [] (.apart [] h []) []
          · exact .apart [] (.apart [] h []) ([] :: blocks)
          · simp only
            split
            · exact .apart [] (.apart [] h (next :: run)) blocks
            · exact .apart [] (.apart [] h []) ((next :: run) :: blocks)
      | cons first before ih => exact runs_cons_oneApart hleading ih first

end

section

variable {α β : Type} {R S : α → α → Prop} {x y : Option α} {xs ys : List α}

/-- Options that are related are related in every weaker way. -/
theorem related_imp (h : Option.Rel R x y) (himp : ∀ a b, R a b → S a b) :
    Option.Rel S x y := by
  cases h with
  | none => exact .none
  | some hab => exact .some (himp _ _ hab)

/-- Mapping keeps options related. -/
theorem map_related {Q : β → β → Prop} (h : Option.Rel R x y) {f : α → β}
    (hf : ∀ a b, R a b → Q (f a) (f b)) : Option.Rel Q (x.map f) (y.map f) := by
  cases h with
  | none => exact .none
  | some hab => exact .some (hf _ _ hab)

/-- Filtering does too, if both are kept or neither is. -/
theorem filter_related (h : Option.Rel R x y) {keep : α → Bool}
    (hkeep : ∀ a b, R a b → keep b = keep a) :
    Option.Rel R (x.filter keep) (y.filter keep) := by
  cases h with
  | none => exact .none
  | @some a b hab =>
      rw [Option.filter_some, Option.filter_some, hkeep a b hab]
      cases keep a with
      | true => exact .some hab
      | false => exact .none

/-- Lists that are related element by element are so at every place. -/
theorem getElem?_related (h : List.Forall₂ R xs ys) (position : Nat) :
    Option.Rel R xs[position]? ys[position]? := by
  induction h generalizing position with
  | nil => exact .none
  | cons hxy _ ih =>
      cases position with
      | zero => exact .some hxy
      | succ position => exact ih position

/-- A search among elements that are the same or related, where a test tells no difference,
finds the same element or related ones. -/
theorem find?_related (h : List.Forall₂ R xs ys) {test : α → Bool}
    (htest : ∀ x y, R x y → test y = test x) :
    Option.Rel (fun x y => R x y ∧ test x = true) (xs.find? test) (ys.find? test) := by
  induction h with
  | nil => exact .none
  | @cons x y xs ys hxy _ ih =>
      rw [List.find?_cons, List.find?_cons, htest x y hxy]
      cases hx : test x with
      | true => exact .some ⟨hxy, hx⟩
      | false => exact ih

end

end WideColumn
