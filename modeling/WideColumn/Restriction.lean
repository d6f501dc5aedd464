import WideColumn.Error
import WideColumn.Query

/-!
# `WideColumn.Restriction`: what the where clause says of each field

The relations on a field add up to one restriction: a list of values the field
may have, or a range with at most one bound on each side. `Restrictions` keeps
the restriction of every restricted field. Each change either adds to the restriction
of one field or is refused, and a refused one changes nothing.
-/

set_option autoImplicit false

namespace WideColumn

/-- A bound on one side of a range. -/
structure Bound where
  term : Term
  inclusive : Bool
  deriving DecidableEq

/-- What the relations on a field add up to. -/
inductive Restriction where
  /-- The field has one of the values. -/
  | equality (values : List Term)
  /-- The field lies between the bounds there are. -/
  | range (lower upper : Option Bound)
  deriving DecidableEq

namespace Restriction

/-- Whether the restriction lists values. -/
def isEquality : Restriction → Bool
  | .equality _ => true
  | .range _ _ => false

/-- The values listed, none for a range. -/
def values : Restriction → List Term
  | .equality values => values
  | .range _ _ => []

/-- The one value the field may have. -/
def single? : Restriction → Option Term
  | .equality [value] => some value
  | _ => none

/-- The bound on a side. -/
def bound? : Restriction → Side → Option Bound
  | .equality _, _ => none
  | .range lower _, .lower => lower
  | .range _ upper, .upper => upper

/-- The restriction as comparisons: one per value, or one per bound, the lower
one first. -/
def comparisons : Restriction → List (Operator × Term)
  | .equality values => values.map fun value => (.eq, value)
  | .range lower upper =>
    lower.toList.map (fun b => (Side.operator .lower b.inclusive, b.term)) ++
      upper.toList.map (fun b => (Side.operator .upper b.inclusive, b.term))

/-- The range with a bound on one side. -/
def ofBound (side : Side) (bound : Bound) : Restriction :=
  match side with
  | .lower => .range (some bound) none
  | .upper => .range none (some bound)

end Restriction

/-- The restrictions of fields, by field name. -/
structure Restrictions where
  entries : List (String × Restriction)
  names_nodup : (entries.map Prod.fst).Nodup

namespace Restrictions

/-- No field is restricted. -/
def empty : Restrictions :=
  ⟨[], List.nodup_nil⟩

/-- The restriction of a field. -/
def get? (restrictions : Restrictions) (field : String) : Option Restriction :=
  restrictions.entries.lookup field

/-- The number of restricted fields. -/
def size (restrictions : Restrictions) : Nat :=
  restrictions.entries.length

/-- Whether no field is restricted. -/
def isEmpty (restrictions : Restrictions) : Bool :=
  restrictions.entries.isEmpty

/-- The entries of all fields but one. -/
def others (field : String) (entries : List (String × Restriction)) :
    List (String × Restriction) :=
  entries.filter fun entry => entry.1 != field

/-- Entering a field in front of the others keeps the names different. -/
theorem nodup_cons_others (field : String) {entries : List (String × Restriction)}
    (h : (entries.map Prod.fst).Nodup) :
    (field :: (others field entries).map Prod.fst).Nodup := by
  refine List.nodup_cons.mpr ⟨fun hmem => ?_, ?_⟩
  · obtain ⟨entry, hentry, hname⟩ := List.mem_map.mp hmem
    have hne := (List.mem_filter.mp hentry).2
    simp [hname] at hne
  · exact List.Sublist.nodup (List.Sublist.map _ List.filter_sublist) h

/-- The restrictions with this one for a field, in place of any before. -/
def set (restrictions : Restrictions) (field : String) (restriction : Restriction) :
    Restrictions :=
  ⟨(field, restriction) :: others field restrictions.entries,
    nodup_cons_others field restrictions.names_nodup⟩

/-- Nothing is said of any field at first. -/
theorem get?_empty (field : String) : empty.get? field = none :=
  rfl

/-- What is said of another field stays when one field is taken out. -/
theorem lookup_others {field other : String} (h : other ≠ field)
    (entries : List (String × Restriction)) :
    (others field entries).lookup other = entries.lookup other := by
  induction entries with
  | nil => rfl
  | cons entry rest ih =>
    obtain ⟨name, restriction⟩ := entry
    by_cases hname : name = field
    · subst hname
      simp only [others, List.filter_cons, bne_self_eq_false, Bool.false_eq_true,
        if_false, List.lookup_cons, beq_false_of_ne h]
      exact ih
    · simp only [others, List.filter_cons, bne_iff_ne, ne_eq, hname, not_false_eq_true,
        if_true, List.lookup_cons]
      split
      · rfl
      · exact ih

/-- Setting the restriction of a field changes that of no other one. -/
theorem get?_set (restrictions : Restrictions) (field other : String)
    (restriction : Restriction) :
    (restrictions.set field restriction).get? other =
      if other = field then some restriction else restrictions.get? other := by
  simp only [get?, set, List.lookup_cons]
  by_cases h : other = field
  · simp [h]
  · simp only [beq_false_of_ne h, h, if_false]
    exact lookup_others h _

/-- A restriction that has been set again is the last one set. -/
theorem set_set (restrictions : Restrictions) (field : String)
    (restriction last : Restriction) :
    (restrictions.set field restriction).set field last = restrictions.set field last := by
  have hothers : others field ((field, restriction) :: others field restrictions.entries) =
      others field restrictions.entries := by
    simp [others, List.filter_filter]
  simp only [set, hothers]

/-! ### Changes in place

Restrictions are gathered in place, one change after the other. What a refused change
leaves behind are the restrictions at the moment it is refused. -/

/-- Gives the field this value; refused where it is restricted already. -/
def insertEquality (field : String) (value : Term) : EStateM Error Restrictions Unit := do
  if ((← get).get? field).isSome then
    throw (.conflictingRestriction field .equality)
  modify fun restrictions => restrictions.set field (.equality [value])

/-- Gives the field one of these values; refused where it is restricted already, and
where there are none. -/
def insertOneOf (field : String) (values : List Term) : EStateM Error Restrictions Unit := do
  if ((← get).get? field).isSome then
    throw (.conflictingRestriction field .oneOf)
  if values = [] then
    throw (.unsupportedRestriction (.oneOfNothing field))
  modify fun restrictions => restrictions.set field (.equality values)

/-- The restriction of a field. A field without one gets a range that is open on both
sides. -/
def enter (field : String) : EStateM Error Restrictions Restriction := do
  match (← get).get? field with
  | some restriction => return restriction
  | none =>
    modify fun restrictions => restrictions.set field (.range none none)
    return .range none none

/-- Bounds the field on a side; refused where it lists values or is bounded on that side
already. The field is entered before anything is checked. -/
def insertBound (field : String) (side : Side) (bound : Bound) :
    EStateM Error Restrictions Unit := do
  match ← enter field, side with
  | .equality _, _ => throw (.conflictingRestriction field .equality)
  | .range none upper, .lower =>
    modify fun restrictions => restrictions.set field (.range (some bound) upper)
  | .range lower none, .upper =>
    modify fun restrictions => restrictions.set field (.range lower (some bound))
  | .range _ _, side => throw (.conflictingRestriction field (.bound side))

/-- Turns the one value of a field into the closed range from it to itself, and tells
whether there is one. -/
def rewriteEquality (field : String) : EStateM Error Restrictions Bool := do
  match ((← get).get? field).bind Restriction.single? with
  | some value =>
    modify fun restrictions =>
      restrictions.set field (.range (some ⟨value, true⟩) (some ⟨value, true⟩))
    return true
  | none => return false

/-- A change to the restriction of a field. -/
inductive Call where
  /-- The field has the value. -/
  | equality (field : String) (value : Term)
  /-- The field has one of the values. -/
  | oneOf (field : String) (values : List Term)
  /-- The field is bounded on the side. -/
  | bound (field : String) (side : Side) (bound : Bound)
  /-- The one value of the field becomes a range. -/
  | rewrite (field : String)

/-- The field whose restriction is to change. -/
def Call.field : Call → String
  | .equality field _ => field
  | .oneOf field _ => field
  | .bound field _ _ => field
  | .rewrite field => field

/-- Makes the change, and tells whether there was anything to change. -/
def Call.run : Call → EStateM Error Restrictions Bool
  | .equality field value => do
    insertEquality field value
    return true
  | .oneOf field values => do
    insertOneOf field values
    return true
  | .bound field side added => do
    insertBound field side added
    return true
  | .rewrite field => rewriteEquality field

/-- The answer to a call, and the restrictions it leaves behind. -/
def call (restrictions : Restrictions) (made : Call) : Except Error Bool × Restrictions :=
  match made.run restrictions with
  | .ok answer next => (.ok answer, next)
  | .error error next => (.error error, next)

/-! ### Changes that end the binding when they are refused -/

/-- The restrictions after a change, or the error it is refused with. -/
def changed (change : EStateM Error Restrictions Unit) (restrictions : Restrictions) :
    Except Error Restrictions :=
  match change restrictions with
  | .ok _ next => .ok next
  | .error error _ => .error error

/-- The restrictions with this value for a field. -/
def addEquality (restrictions : Restrictions) (field : String) (value : Term) :
    Except Error Restrictions :=
  changed (insertEquality field value) restrictions

/-- The restrictions with one of these values for a field. -/
def addOneOf (restrictions : Restrictions) (field : String) (values : List Term) :
    Except Error Restrictions :=
  changed (insertOneOf field values) restrictions

/-- The restrictions with a bound on a side of a field. -/
def addBound (restrictions : Restrictions) (field : String) (side : Side) (bound : Bound) :
    Except Error Restrictions :=
  changed (insertBound field side bound) restrictions

/-- The restrictions with the one value of a field turned into a closed range; nothing
where the field has no single value. -/
def equalityToRange? (restrictions : Restrictions) (field : String) : Option Restrictions :=
  match rewriteEquality field restrictions with
  | .ok true next => some next
  | _ => none

/-- The field a relation's operator compares, restricted by it. -/
def addComparison (restrictions : Restrictions) (field : String) (operator : Operator)
    (value : Term) : Except Error Restrictions :=
  match operator with
  | .eq => restrictions.addEquality field value
  | .gt => restrictions.addBound field .lower ⟨value, false⟩
  | .gte => restrictions.addBound field .lower ⟨value, true⟩
  | .lt => restrictions.addBound field .upper ⟨value, false⟩
  | .lte => restrictions.addBound field .upper ⟨value, true⟩

end Restrictions

end WideColumn
