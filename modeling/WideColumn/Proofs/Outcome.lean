import Mathlib.Data.List.Forall2

/-!
# `WideColumn.Proofs.Outcome`: results that may be errors

Equations for `Except`, and what a result that is no error says of the steps it
comes from. The theorems:

* `bind_eq_ok_iff` / `map_eq_ok_iff`: both steps have a result.
* `mapM_eq_ok_iff`: every element has a result, at its place.
* `mapM_eq_error_iff`: some element has an error, and it is the first one that has.
* `flatten_mapM`: traversals of the parts are a traversal of the whole.
* `forall₂_imp_of_mem` / `exists_of_forall₂`: pairs of elements at the same place.
* `FailsOnly.bind`, `FailsOnly.mapM` and `FailsOnly.foldlM`: the errors of steps are errors
  of their parts, and so `FailsOnly.bind_eq_error_iff` tells which step an error is of.
* `Alike.bind`, `Alike.mapM` and `Alike.foldlM`: steps that correspond have results that
  do.
-/

set_option autoImplicit false

namespace WideColumn.Outcome

variable {ε α β : Type}

/-- A pure result is a value. -/
@[simp]
theorem pure_eq_ok (a : α) : (pure a : Except ε α) = .ok a :=
  rfl

/-- After a value comes the next step. -/
@[simp]
theorem ok_bind (a : α) (f : α → Except ε β) : ((Except.ok a : Except ε α) >>= f) = f a :=
  rfl

/-- After an error comes nothing. -/
@[simp]
theorem error_bind (e : ε) (f : α → Except ε β) :
    ((Except.error e : Except ε α) >>= f) = .error e :=
  rfl

/-- Mapping changes a value. -/
@[simp]
theorem map_ok (f : α → β) (a : α) : Except.map f (.ok a : Except ε α) = .ok (f a) :=
  rfl

/-- Two steps have a result where the first has one, and the second for it. -/
theorem bind_eq_ok_iff {x : Except ε α} {f : α → Except ε β} {b : β} :
    (x >>= f) = .ok b ↔ ∃ a, x = .ok a ∧ f a = .ok b := by
  cases x with
  | error e => simp
  | ok a => simp

/-- A mapped result comes from one before. -/
theorem map_eq_ok_iff {x : Except ε α} {f : α → β} {b : β} :
    x.map f = .ok b ↔ ∃ a, x = .ok a ∧ f a = b := by
  cases x with
  | error e => simp [Except.map]
  | ok a => simp

/-- Mapping adds no error and hides none. -/
theorem map_eq_error_iff {x : Except ε α} {f : α → β} {e : ε} :
    x.map f = .error e ↔ x = .error e := by
  cases x with
  | error e' => simp [Except.map]
  | ok a => simp

/-- Renaming errors changes no value. -/
theorem mapError_eq_ok_iff {ε' : Type} {x : Except ε α} {f : ε → ε'} {a : α} :
    x.mapError f = .ok a ↔ x = .ok a := by
  cases x with
  | error e => exact iff_of_false nofun nofun
  | ok b => exact ⟨fun h => congrArg _ (Except.ok.inj h), fun h => congrArg _ (Except.ok.inj h)⟩

/-- A traversal has a result where every element has one, each at its place. -/
theorem mapM_eq_ok_iff {f : α → Except ε β} {xs : List α} {ys : List β} :
    xs.mapM f = .ok ys ↔ List.Forall₂ (fun x y => f x = .ok y) xs ys := by
  induction xs generalizing ys with
  | nil =>
      rw [List.mapM_nil, pure_eq_ok]
      constructor
      · rintro ⟨⟩
        exact .nil
      · rintro ⟨⟩
        rfl
  | cons x xs ih =>
      rw [List.mapM_cons, bind_eq_ok_iff]
      constructor
      · rintro ⟨y, hy, h⟩
        obtain ⟨rest, hrest, h⟩ := bind_eq_ok_iff.mp h
        cases h
        exact .cons hy (ih.mp hrest)
      · intro h
        cases h with
        | cons hy hrest => exact ⟨_, hy, bind_eq_ok_iff.mpr ⟨_, ih.mpr hrest, rfl⟩⟩

/-- So there is a result where no element fails. -/
theorem exists_mapM_eq_ok_iff {f : α → Except ε β} {xs : List α} :
    (∃ ys, xs.mapM f = .ok ys) ↔ ∀ x ∈ xs, ∃ y, f x = .ok y := by
  simp only [mapM_eq_ok_iff]
  induction xs with
  | nil => exact iff_of_true ⟨[], .nil⟩ (by simp)
  | cons x xs ih =>
      rw [List.forall_mem_cons, ← ih]
      constructor
      · rintro ⟨_, hall⟩
        cases hall with
        | cons hy hrest => exact ⟨⟨_, hy⟩, _, hrest⟩
      · rintro ⟨⟨y, hy⟩, ys, hrest⟩
        exact ⟨y :: ys, .cons hy hrest⟩

/-- Where no element fails, every element has its result. -/
theorem mapM_eq_ok_map {f : α → Except ε β} {g : α → β} {xs : List α}
    (h : ∀ x ∈ xs, f x = .ok (g x)) : xs.mapM f = .ok (xs.map g) := by
  induction xs with
  | nil => rfl
  | cons x xs ih =>
      rw [List.mapM_cons, h x List.mem_cons_self, ok_bind,
        ih fun y hy => h y (List.mem_cons_of_mem _ hy)]
      rfl

/-- Where every result is turned into another, so are the results together. -/
theorem mapM_comp_map {γ : Type} (f : α → Except ε β) (g : β → γ) (xs : List α) :
    (xs.mapM fun x => (f x).map g) = (xs.mapM f).map (List.map g) := by
  induction xs with
  | nil => rfl
  | cons x xs ih =>
      rw [List.mapM_cons, List.mapM_cons, ih]
      cases f x with
      | error e => rfl
      | ok y => cases xs.mapM f <;> rfl

/-- A traversal fails at the first element that fails, with the error of that element. -/
theorem mapM_eq_error_iff {f : α → Except ε β} {xs : List α} {e : ε} :
    xs.mapM f = .error e ↔ ∃ before x after, xs = before ++ x :: after ∧
      (∀ earlier ∈ before, ∀ e', f earlier ≠ .error e') ∧ f x = .error e := by
  induction xs with
  | nil => simp
  | cons first rest ih =>
      rw [List.mapM_cons]
      cases hfirst : f first with
      | error e' =>
          rw [error_bind]
          constructor
          · rintro ⟨⟩
            exact ⟨[], first, rest, rfl, nofun, hfirst⟩
          · rintro ⟨before, x, after, hparts, hbefore, hx⟩
            -- Nothing comes before an element that fails.
            cases before with
            | nil =>
                obtain ⟨rfl, -⟩ := List.cons_eq_cons.mp hparts
                rw [Except.error.inj (hfirst.symm.trans hx)]
            | cons earlier before =>
                obtain ⟨rfl, -⟩ := List.cons_eq_cons.mp hparts
                exact absurd hfirst (hbefore _ List.mem_cons_self _)
      | ok y =>
          have hrest : (Except.ok y >>= fun y => rest.mapM f >>= fun ys => pure (y :: ys)) =
              .error e ↔ rest.mapM f = .error e := by
            rw [ok_bind]
            exact map_eq_error_iff
          rw [hrest, ih]
          constructor
          · rintro ⟨before, x, after, rfl, hbefore, hx⟩
            refine ⟨first :: before, x, after, rfl, fun earlier hearlier e' => ?_, hx⟩
            rcases List.mem_cons.mp hearlier with rfl | hlater
            · rw [hfirst]
              nofun
            · exact hbefore earlier hlater e'
          · rintro ⟨before, x, after, hparts, hbefore, hx⟩
            cases before with
            | nil =>
                obtain ⟨rfl, -⟩ := List.cons_eq_cons.mp hparts
                rw [hfirst] at hx
                cases hx
            | cons earlier before =>
                obtain ⟨rfl, rfl⟩ := List.cons_eq_cons.mp hparts
                exact ⟨before, x, after, rfl,
                  fun other hother => hbefore other (List.mem_cons_of_mem _ hother), hx⟩

/-- Two traversals are one over the flattened list. -/
theorem flatten_mapM {γ : Type} (f : α → List β) (g : β → Except ε γ) (xs : List α) :
    (xs.mapM fun x => (f x).mapM g).map List.flatten = (xs.flatMap f).mapM g := by
  induction xs with
  | nil => rfl
  | cons x xs ih =>
      rw [List.flatMap_cons, List.mapM_append, List.mapM_cons, ← ih]
      cases (f x).mapM g with
      | error e => rfl
      | ok ys => cases xs.mapM fun x => (f x).mapM g <;> rfl

/-- There are as many results as elements. -/
theorem length_of_mapM {f : α → Except ε β} {xs : List α} {ys : List β}
    (h : xs.mapM f = .ok ys) : ys.length = xs.length := by
  have hpairs := mapM_eq_ok_iff.mp h
  clear h
  induction hpairs with
  | nil => rfl
  | cons _ _ ih => rw [List.length_cons, List.length_cons, ih]

/-- Elements at the same place of two lists, which are known to be elements. -/
theorem forall₂_imp_of_mem {R S : α → β → Prop} {xs : List α} {ys : List β}
    (h : List.Forall₂ R xs ys) (himp : ∀ x ∈ xs, ∀ y ∈ ys, R x y → S x y) :
    List.Forall₂ S xs ys := by
  induction h with
  | nil => exact .nil
  | cons hxy _ ih =>
      refine .cons (himp _ List.mem_cons_self _ List.mem_cons_self hxy) (ih fun x hx y hy => ?_)
      exact himp x (List.mem_cons_of_mem _ hx) y (List.mem_cons_of_mem _ hy)

/-- Every element of the first list has a partner in the second one. -/
theorem exists_of_forall₂ {R : α → β → Prop} {xs : List α} {ys : List β}
    (h : List.Forall₂ R xs ys) {x : α} (hx : x ∈ xs) : ∃ y ∈ ys, R x y := by
  induction h with
  | nil => cases hx
  | cons hxy _ ih =>
      cases hx with
      | head => exact ⟨_, List.mem_cons_self, hxy⟩
      | tail _ hrest =>
          obtain ⟨y, hy, hxy⟩ := ih hrest
          exact ⟨y, List.mem_cons_of_mem _ hy, hxy⟩

/-! ### Which errors there can be -/

/-- Every error the result can be has the property. -/
def FailsOnly (P : ε → Prop) (x : Except ε α) : Prop :=
  ∀ e, x = .error e → P e

variable {P : ε → Prop}

/-- A value is no error of any kind. -/
theorem failsOnly_ok (a : α) : FailsOnly P (.ok a) :=
  fun _ => nofun

/-- An error is of every kind that it belongs to. -/
theorem failsOnly_error {e : ε} (h : P e) : FailsOnly P (.error e : Except ε α) := by
  rintro _ ⟨⟩
  exact h

/-- An error of one kind is an error of a wider one. -/
theorem FailsOnly.imp {Q : ε → Prop} {x : Except ε α} (hx : FailsOnly P x)
    (h : ∀ e, P e → Q e) : FailsOnly Q x :=
  fun e he => h e (hx e he)

/-- The errors of two steps are those of the first and those of the second. -/
theorem FailsOnly.bind {x : Except ε α} {f : α → Except ε β} (hx : FailsOnly P x)
    (hf : ∀ a, FailsOnly P (f a)) : FailsOnly P (x >>= f) := by
  cases x with
  | error e => exact failsOnly_error (hx e rfl)
  | ok a => exact hf a

/-- Mapping keeps the kind of error. -/
theorem FailsOnly.map {x : Except ε α} (hx : FailsOnly P x) (f : α → β) :
    FailsOnly P (x.map f) := by
  cases x with
  | error e => exact failsOnly_error (hx e rfl)
  | ok a => exact failsOnly_ok _

/-- An error of a traversal is one of some element. -/
theorem FailsOnly.mapM {f : α → Except ε β} {xs : List α} (hf : ∀ x ∈ xs, FailsOnly P (f x)) :
    FailsOnly P (xs.mapM f) := by
  induction xs with
  | nil => exact failsOnly_ok _
  | cons x xs ih =>
      rw [List.mapM_cons]
      refine (hf x List.mem_cons_self).bind fun y => ?_
      exact (ih fun z hz => hf z (List.mem_cons_of_mem _ hz)).bind fun ys => failsOnly_ok _

/-- An error of a fold is one of a step with some element. -/
theorem FailsOnly.foldlM {f : β → α → Except ε β} {xs : List α} {b : β}
    (hf : ∀ b, ∀ a ∈ xs, FailsOnly P (f b a)) : FailsOnly P (xs.foldlM f b) := by
  induction xs generalizing b with
  | nil => exact failsOnly_ok _
  | cons x xs ih =>
      rw [List.foldlM_cons]
      refine (hf b x List.mem_cons_self).bind fun next => ?_
      exact ih fun b a ha => hf b a (List.mem_cons_of_mem _ ha)

/-- An error that the first step cannot be is one of the second step. -/
theorem FailsOnly.bind_eq_error_iff {x : Except ε α} {f : α → Except ε β} {e : ε}
    (hx : FailsOnly P x) (he : ¬ P e) : (x >>= f) = .error e ↔ ∃ a, x = .ok a ∧ f a = .error e := by
  cases x with
  | ok a => simp
  | error e' =>
      have hne : e' ≠ e := fun heq => he (heq ▸ hx e' rfl)
      simp [hne]

/-- An error that the second step cannot be is one of the first step. -/
theorem FailsOnly.eq_error_of_bind {x : Except ε α} {f : α → Except ε β} {e : ε}
    (hf : ∀ a, FailsOnly P (f a)) (he : ¬ P e) (h : (x >>= f) = .error e) : x = .error e := by
  cases x with
  | ok a => exact absurd (hf a e h) he
  | error e' => simpa using h

/-! ### Two results that correspond -/

/-- Both are values that correspond, or both are errors that do. -/
inductive Alike (E : ε → ε → Prop) (R : α → β → Prop) : Except ε α → Except ε β → Prop
  | ok {a : α} {b : β} (h : R a b) : Alike E R (.ok a) (.ok b)
  | error {e e' : ε} (h : E e e') : Alike E R (.error e) (.error e')

variable {E : ε → ε → Prop} {R : α → β → Prop}

/-- Equal results are alike. -/
theorem Alike.of_eq {x y : Except ε α} (hrefl : ∀ e, E e e) (h : x = y) : Alike E Eq x y := by
  subst h
  cases x with
  | ok a => exact .ok rfl
  | error e => exact .error (hrefl e)

/-- What is like a value is a value. -/
theorem Alike.exists_ok {a : α} {y : Except ε β} (h : Alike E R (.ok a) y) :
    ∃ b, y = .ok b ∧ R a b := by
  cases h with
  | ok h => exact ⟨_, rfl, h⟩

/-- Results that are alike are so in every weaker way. -/
theorem Alike.imp {S : α → β → Prop} {x : Except ε α} {y : Except ε β} (h : Alike E R x y)
    (himp : ∀ a b, R a b → S a b) : Alike E S x y := by
  cases h with
  | ok h => exact .ok (himp _ _ h)
  | error h => exact .error h

/-- Values that correspond may be known to be the results. -/
theorem Alike.imp_of_eq {S : α → β → Prop} {x : Except ε α} {y : Except ε β} (h : Alike E R x y)
    (himp : ∀ a b, x = .ok a → y = .ok b → R a b → S a b) : Alike E S x y := by
  cases h with
  | ok h => exact .ok (himp _ _ rfl rfl h)
  | error h => exact .error h

/-- Steps that are alike, after results that are, have results that are. -/
theorem Alike.bind {γ δ : Type} {S : γ → δ → Prop} {x : Except ε α} {y : Except ε β}
    {f : α → Except ε γ} {g : β → Except ε δ} (h : Alike E R x y)
    (hstep : ∀ a b, R a b → Alike E S (f a) (g b)) : Alike E S (x >>= f) (y >>= g) := by
  cases h with
  | ok h => exact hstep _ _ h
  | error h => exact .error h

/-- The same for mapping. -/
theorem Alike.map {γ δ : Type} {S : γ → δ → Prop} {x : Except ε α} {y : Except ε β}
    {f : α → γ} {g : β → δ} (h : Alike E R x y) (hstep : ∀ a b, R a b → S (f a) (g b)) :
    Alike E S (x.map f) (y.map g) := by
  cases h with
  | ok h => exact .ok (hstep _ _ h)
  | error h => exact .error h

/-- The same for traversals of elements that correspond. -/
theorem Alike.mapM {γ δ : Type} {S : γ → δ → Prop} {xs : List α} {ys : List β}
    {f : α → Except ε γ} {g : β → Except ε δ} (h : List.Forall₂ R xs ys)
    (hstep : ∀ a b, R a b → Alike E S (f a) (g b)) :
    Alike E (List.Forall₂ S) (xs.mapM f) (ys.mapM g) := by
  induction h with
  | nil => exact .ok .nil
  | cons hxy _ ih =>
      rw [List.mapM_cons, List.mapM_cons]
      refine (hstep _ _ hxy).bind fun a b hab => ?_
      exact ih.bind fun as bs hrest => .ok (.cons hab hrest)

/-- The same for folds, where the steps also keep what has been collected alike. -/
theorem Alike.foldlM {γ δ : Type} {S : γ → δ → Prop} {xs : List α} {ys : List β}
    {f : γ → α → Except ε γ} {g : δ → β → Except ε δ} (h : List.Forall₂ R xs ys)
    (hstep : ∀ c d x y, S c d → R x y → Alike E S (f c x) (g d y)) {c : γ} {d : δ}
    (hstart : S c d) : Alike E S (xs.foldlM f c) (ys.foldlM g d) := by
  induction h generalizing c d with
  | nil => exact .ok hstart
  | cons hxy _ ih =>
      rw [List.foldlM_cons, List.foldlM_cons]
      exact (hstep _ _ _ _ hstart hxy).bind fun c d => ih

/-- Traversals of lists whose elements have the same results. -/
theorem mapM_eq_of_forall₂ {γ : Type} {xs : List α} {ys : List β} {f : α → Except ε γ}
    {g : β → Except ε γ} (h : List.Forall₂ (fun x y => g y = f x) xs ys) :
    ys.mapM g = xs.mapM f := by
  induction h with
  | nil => rfl
  | cons hxy _ ih => rw [List.mapM_cons, List.mapM_cons, hxy, ih]

end WideColumn.Outcome
