import WideColumn.Restriction

/-!
# `WideColumn.Proofs.Restriction`: changing restrictions in place

Restrictions are changed in place, and a where clause with a relation that is refused is
given up. Whoever goes on after a refusal finds the restrictions as they were, although a
bound enters its field before it is checked: the field of a bound that is refused has been
there before. The theorems:

* `insertEquality_run` and its siblings: a change in place, as a function of the
  restriction the field has.
* `addEquality_eq` and its siblings: the same for the changes that end the binding.
* `call_eq`: one call. It sets the restriction of its own field, or nothing at all.
* `get?_callAll`: a sequence of calls, as the calls on each field by themselves.
* `callAll_effects`: what is kept by every call and holds after every sequence of calls.
-/

set_option autoImplicit false

namespace WideColumn

namespace Restrictions

variable {restrictions : Restrictions} {field : String}

/-! ### Changes in place -/

/-- An equality is entered for a field of which nothing has been said. Otherwise there is a
conflict, and nothing changes. -/
theorem insertEquality_run (restrictions : Restrictions) (field : String) (value : Term) :
    insertEquality field value restrictions =
      match restrictions.get? field with
      | some _ => .error (.conflictingRestriction field .equality) restrictions
      | none => .ok () (restrictions.set field (.equality [value])) := by
  unfold insertEquality
  show (if (restrictions.get? field).isSome = true then _ else _ :
    EStateM Error Restrictions Unit) restrictions = _
  cases restrictions.get? field <;> rfl

/-- The same for several values, and having none of them is refused, too. -/
theorem insertOneOf_run (restrictions : Restrictions) (field : String) (values : List Term) :
    insertOneOf field values restrictions =
      match restrictions.get? field with
      | some _ => .error (.conflictingRestriction field .oneOf) restrictions
      | none =>
        if values = [] then
          .error (.unsupportedRestriction (.oneOfNothing field)) restrictions
        else .ok () (restrictions.set field (.equality values)) := by
  unfold insertOneOf
  show (if (restrictions.get? field).isSome = true then _ else _ :
    EStateM Error Restrictions Unit) restrictions = _
  cases restrictions.get? field with
  | some _ => rfl
  | none =>
      show (if values = [] then _ else _ : EStateM Error Restrictions Unit) restrictions = _
      by_cases h : values = []
      · simp only [h, if_true]
        rfl
      · simp only [h, if_false]
        rfl

/-- A field without a restriction is entered as an open range, and one with a restriction
is left as it is. -/
theorem enter_run (restrictions : Restrictions) (field : String) :
    enter field restrictions =
      match restrictions.get? field with
      | some restriction => .ok restriction restrictions
      | none => .ok (.range none none) (restrictions.set field (.range none none)) := by
  unfold enter
  show (match restrictions.get? field with
    | some _ => _
    | none => _ : EStateM Error Restrictions Restriction) restrictions = _
  cases restrictions.get? field <;> rfl

/-- An open range takes a bound on either side, so a field that has just been entered is
never left with the range it has been entered with. -/
theorem insertBound_run (restrictions : Restrictions) (field : String) (side : Side)
    (bound : Bound) :
    insertBound field side bound restrictions =
      match restrictions.get? field, side with
      | none, side => .ok () (restrictions.set field (.ofBound side bound))
      | some (.equality _), _ =>
        .error (.conflictingRestriction field .equality) restrictions
      | some (.range none upper), .lower =>
        .ok () (restrictions.set field (.range (some bound) upper))
      | some (.range lower none), .upper =>
        .ok () (restrictions.set field (.range lower (some bound)))
      | some (.range _ _), side =>
        .error (.conflictingRestriction field (.bound side)) restrictions := by
  unfold insertBound
  show (EStateM.bind (enter field) _ : EStateM Error Restrictions Unit) restrictions = _
  unfold EStateM.bind
  rw [enter_run]
  cases restrictions.get? field with
  | none =>
      cases side with
      | lower => exact congrArg (EStateM.Result.ok ()) (set_set restrictions field _ _)
      | upper => exact congrArg (EStateM.Result.ok ()) (set_set restrictions field _ _)
  | some restriction =>
      rcases restriction with values | ⟨lower, upper⟩
      · rfl
      · cases side <;> cases lower <;> cases upper <;> rfl

/-- A single value becomes the range from itself to itself, and anything else stays. -/
theorem rewriteEquality_run (restrictions : Restrictions) (field : String) :
    rewriteEquality field restrictions =
      match (restrictions.get? field).bind Restriction.single? with
      | some value => .ok true
          (restrictions.set field (.range (some ⟨value, true⟩) (some ⟨value, true⟩)))
      | none => .ok false restrictions := by
  unfold rewriteEquality
  show (match (restrictions.get? field).bind Restriction.single? with
    | some _ => _
    | none => _ : EStateM Error Restrictions Bool) restrictions = _
  cases (restrictions.get? field).bind Restriction.single? <;> rfl

/-! ### Changes that end the binding when they are refused -/

/-- The equality that is added, as a function of the restrictions before. -/
theorem addEquality_eq (restrictions : Restrictions) (field : String) (value : Term) :
    restrictions.addEquality field value =
      match restrictions.get? field with
      | some _ => .error (.conflictingRestriction field .equality)
      | none => .ok (restrictions.set field (.equality [value])) := by
  rw [addEquality, changed, insertEquality_run]
  cases restrictions.get? field <;> rfl

/-- The several values that are added, as a function of the restrictions before. -/
theorem addOneOf_eq (restrictions : Restrictions) (field : String) (values : List Term) :
    restrictions.addOneOf field values =
      match restrictions.get? field with
      | some _ => .error (.conflictingRestriction field .oneOf)
      | none =>
        if values = [] then .error (.unsupportedRestriction (.oneOfNothing field))
        else .ok (restrictions.set field (.equality values)) := by
  rw [addOneOf, changed, insertOneOf_run]
  cases restrictions.get? field with
  | some _ => rfl
  | none => by_cases h : values = [] <;> simp [h]

/-- A bound opens a range or takes the side that is free. It goes with no equality and with no
other bound of its side. -/
theorem addBound_eq (restrictions : Restrictions) (field : String) (side : Side)
    (bound : Bound) :
    restrictions.addBound field side bound =
      match restrictions.get? field, side with
      | none, side => .ok (restrictions.set field (.ofBound side bound))
      | some (.equality _), _ => .error (.conflictingRestriction field .equality)
      | some (.range none upper), .lower =>
        .ok (restrictions.set field (.range (some bound) upper))
      | some (.range lower none), .upper =>
        .ok (restrictions.set field (.range lower (some bound)))
      | some (.range _ _), side => .error (.conflictingRestriction field (.bound side)) := by
  rw [addBound, changed, insertBound_run]
  grind

/-- The rewritten restrictions, if there is a single value to rewrite. -/
theorem equalityToRange?_eq (restrictions : Restrictions) (field : String) :
    restrictions.equalityToRange? field =
      match (restrictions.get? field).bind Restriction.single? with
      | some value => some
          (restrictions.set field (.range (some ⟨value, true⟩) (some ⟨value, true⟩)))
      | none => none := by
  rw [equalityToRange?, rewriteEquality_run]
  cases (restrictions.get? field).bind Restriction.single? <;> rfl

/-! ### One call -/

/-- What a call makes of the restriction its field has: another one, nothing where there is
nothing to change, or an error. -/
def Call.outcome : Call → Option Restriction → Except Error (Option Restriction)
  | .equality _ value, none => .ok (some (.equality [value]))
  | .equality field _, some _ => .error (.conflictingRestriction field .equality)
  | .oneOf field values, none =>
    if values = [] then .error (.unsupportedRestriction (.oneOfNothing field))
    else .ok (some (.equality values))
  | .oneOf field _, some _ => .error (.conflictingRestriction field .oneOf)
  | .bound _ side added, none => .ok (some (.ofBound side added))
  | .bound field _ _, some (.equality _) => .error (.conflictingRestriction field .equality)
  | .bound _ .lower added, some (.range none upper) => .ok (some (.range (some added) upper))
  | .bound _ .upper added, some (.range lower none) => .ok (some (.range lower (some added)))
  | .bound field side _, some (.range _ _) =>
    .error (.conflictingRestriction field (.bound side))
  | .rewrite _, some (.equality [value]) =>
    .ok (some (.range (some ⟨value, true⟩) (some ⟨value, true⟩)))
  | .rewrite _, _ => .ok none

/-- An addition that is not refused has something to add. -/
theorem add_run (change : EStateM Error Restrictions Unit) (restrictions : Restrictions) :
    (do
      change
      return true : EStateM Error Restrictions Bool) restrictions =
      match change restrictions with
      | .ok _ next => .ok true next
      | .error error next => .error error next := by
  show EStateM.bind change _ restrictions = _
  unfold EStateM.bind
  cases change restrictions <;> rfl

/-- A call sets the restriction of its field, or it leaves everything as it is. -/
theorem call_eq (restrictions : Restrictions) (made : Call) :
    restrictions.call made =
      match made.outcome (restrictions.get? made.field) with
      | .error error => (.error error, restrictions)
      | .ok none => (.ok false, restrictions)
      | .ok (some after) => (.ok true, restrictions.set made.field after) := by
  cases made with
  | equality field value =>
      simp only [call, Call.run, Call.field, add_run, insertEquality_run]
      cases restrictions.get? field <;> rfl
  | oneOf field values =>
      simp only [call, Call.run, Call.field, add_run, insertOneOf_run]
      cases restrictions.get? field with
      | some _ => rfl
      | none => by_cases h : values = [] <;> simp [Call.outcome, h]
  | bound field side added =>
      simp only [call, Call.run, Call.field, add_run, insertBound_run, Call.outcome]
      grind
  | rewrite field =>
      simp only [call, Call.run, Call.field, rewriteEquality_run]
      cases restrictions.get? field with
      | none => rfl
      | some restriction =>
          rcases restriction with (_ | ⟨value, _ | ⟨next, rest⟩⟩) | ⟨lower, upper⟩ <;> rfl

/-- The restriction that a call leaves its field with. -/
def Call.after (made : Call) (before : Option Restriction) : Option Restriction :=
  match made.outcome before with
  | .ok (some after) => some after
  | _ => before

/-- A call changes what is said of its own field only. -/
theorem get?_call (restrictions : Restrictions) (made : Call) (field : String) :
    (restrictions.call made).2.get? field =
      if field = made.field then made.after (restrictions.get? field)
      else restrictions.get? field := by
  rw [call_eq, Call.after]
  by_cases hfield : field = made.field
  · subst hfield
    rcases made.outcome (restrictions.get? made.field) with error | _ | after <;>
      simp [get?_set]
  · rcases made.outcome (restrictions.get? made.field) with error | _ | after <;>
      simp [get?_set, hfield]

/-! ### What a call does -/

/-- The call adds to a restriction, in contrast to writing it in another form. -/
def Call.isAddition : Call → Bool
  | .rewrite _ => false
  | _ => true

/-- How a call turns the restriction its field has into another. -/
inductive Call.Turns : Call → Option Restriction → Restriction → Prop
  | equality (field : String) (value : Term) :
    Turns (.equality field value) none (.equality [value])
  | oneOf (field : String) (values : List Term) (some_value : values ≠ []) :
    Turns (.oneOf field values) none (.equality values)
  | bound (field : String) (side : Side) (added : Bound) :
    Turns (.bound field side added) none (.ofBound side added)
  | lower (field : String) (added : Bound) (upper : Option Bound) :
    Turns (.bound field .lower added) (some (.range none upper)) (.range (some added) upper)
  | upper (field : String) (added : Bound) (lower : Option Bound) :
    Turns (.bound field .upper added) (some (.range lower none)) (.range lower (some added))
  | rewrite (field : String) (value : Term) :
    Turns (.rewrite field) (some (.equality [value]))
      (.range (some ⟨value, true⟩) (some ⟨value, true⟩))

/-- A call sets the restriction of its field exactly where it turns the one there is. -/
theorem Call.outcome_eq_some_iff {made : Call} {before : Option Restriction}
    {after : Restriction} :
    made.outcome before = .ok (some after) ↔ made.Turns before after := by
  constructor
  · -- The cases are the branches of the outcome: the six that change something, and the others.
    fun_cases Call.outcome made before with
    | case1 field value =>
        rintro ⟨⟩
        exact .equality field value
    | case4 field values some_value =>
        rintro ⟨⟩
        exact .oneOf field values some_value
    | case6 field side added =>
        rintro ⟨⟩
        exact .bound field side added
    | case8 field added upper =>
        rintro ⟨⟩
        exact .lower field added upper
    | case9 field added lower =>
        rintro ⟨⟩
        exact .upper field added lower
    | case11 field value =>
        rintro ⟨⟩
        exact .rewrite field value
    | _ => nofun
  · intro h
    cases h with
    | equality | bound | lower | rewrite => rfl
    | oneOf field values some_value => rw [Call.outcome, if_neg some_value]
    | upper field added lower => cases lower <;> rfl

end Restrictions

namespace Restriction

/-- The restriction says something: it lists a value or has a bound. -/
def Sound : Restriction → Prop
  | .equality values => values ≠ []
  | .range lower upper => lower ≠ none ∨ upper ≠ none

/-- All values and bounds of the restriction stand in their places in the later one. -/
structure KeptBy (restriction later : Restriction) : Prop where
  values : restriction.values <+: later.values
  bounds : ∀ side bound, restriction.bound? side = some bound → later.bound? side = some bound

/-- A restriction is kept by itself. -/
theorem KeptBy.refl (restriction : Restriction) : restriction.KeptBy restriction :=
  ⟨List.prefix_rfl, fun _ _ h => h⟩

end Restriction

namespace Restrictions

namespace Call.Turns

variable {made : Call} {before : Option Restriction} {restriction after : Restriction}

/-- Whatever a field has before a call, what the call turns it into says something. -/
theorem sound (h : made.Turns before after) : after.Sound := by
  cases h with
  | equality field value => exact List.cons_ne_nil _ _
  | oneOf field values some_value => exact some_value
  | bound field side added => cases side <;> simp [Restriction.ofBound, Restriction.Sound]
  | lower field added upper => simp [Restriction.Sound]
  | upper field added lower => simp [Restriction.Sound]
  | rewrite field value => simp [Restriction.Sound]

/-- An addition to a restriction only fills the side of a range that has been open. -/
theorem keptBy (h : made.Turns (some restriction) after) (adds : made.isAddition = true) :
    restriction.KeptBy after := by
  cases h with
  | lower field added upper =>
      refine ⟨List.prefix_rfl, ?_⟩
      intro side bound hbound
      cases side with
      | lower => cases hbound
      | upper => exact hbound
  | upper field added lower =>
      refine ⟨List.prefix_rfl, ?_⟩
      intro side bound hbound
      cases side with
      | lower => exact hbound
      | upper => cases hbound
  | rewrite field value => cases adds

end Call.Turns

/-- What a call does to the restrictions, told field by field. -/
structure Call.Effect (made : Call) (before : Restrictions) (answer : Except Error Bool)
    (after : Restrictions) : Prop where
  /-- The call succeeds where it can turn the restriction of its field, and then it has. -/
  succeeds : answer = .ok true ↔ ∃ restriction,
    made.Turns (before.get? made.field) restriction ∧
      after.get? made.field = some restriction
  /-- A call that does not succeed leaves the restrictions of all fields as they were. -/
  refused : answer ≠ .ok true → ∀ field, after.get? field = before.get? field
  /-- No call has an effect on other fields. -/
  others : ∀ field, field ≠ made.field → after.get? field = before.get? field
  /-- An addition that succeeds keeps what there has been. -/
  kept : answer = .ok true → made.isAddition = true → ∀ field restriction,
    before.get? field = some restriction →
      ∃ later, after.get? field = some later ∧ restriction.KeptBy later

/-- A call that turns nothing leaves everything as it is. -/
theorem Call.Effect.of_refused {made : Call} {before : Restrictions}
    {answer : Except Error Bool} (refused : answer ≠ .ok true)
    (turns : ∀ after, ¬made.Turns (before.get? made.field) after) :
    made.Effect before answer before where
  succeeds := ⟨fun h => absurd h refused, fun ⟨after, h, _⟩ => absurd h (turns after)⟩
  refused _ _ := rfl
  others _ _ := rfl
  kept h := absurd h refused

/-- Every call has the effect that is stated for it. -/
theorem call_effect (restrictions : Restrictions) (made : Call) :
    made.Effect restrictions (restrictions.call made).1 (restrictions.call made).2 := by
  rw [call_eq]
  rcases houtcome : made.outcome (restrictions.get? made.field) with error | _ | after
  · exact .of_refused nofun (by simp [← Call.outcome_eq_some_iff, houtcome])
  · exact .of_refused nofun (by simp [← Call.outcome_eq_some_iff, houtcome])
  · have hturns := Call.outcome_eq_some_iff.mp houtcome
    refine ⟨⟨fun _ => ⟨after, hturns, by simp [get?_set]⟩, fun _ => rfl⟩,
      fun hanswer => absurd rfl hanswer, fun field hfield => by simp [get?_set, hfield], ?_⟩
    intro _ adds field restriction hbefore
    by_cases hfield : field = made.field
    · subst hfield
      rw [hbefore] at hturns
      exact ⟨after, by simp [get?_set], hturns.keptBy adds⟩
    · exact ⟨restriction, by simp [get?_set, hfield, hbefore], .refl restriction⟩

/-! ### Sequences of calls -/

/-- The answers of calls made one after the other, whether they succeed or not, and the
restrictions after the last one. -/
def callAll (restrictions : Restrictions) :
    List Call → List (Except Error Bool) × Restrictions
  | [] => ([], restrictions)
  | made :: rest =>
    let (answer, next) := restrictions.call made
    let (answers, last) := next.callAll rest
    (answer :: answers, last)

/-- A sequence of calls is the first one and then the others. -/
theorem callAll_cons (restrictions : Restrictions) (made : Call) (rest : List Call) :
    (restrictions.callAll (made :: rest)).2 = ((restrictions.call made).2.callAll rest).2 :=
  rfl

/-- The restriction a field has after calls is what the calls on the field alone have made
of the one it had. -/
theorem get?_callAll (restrictions : Restrictions) (calls : List Call) (field : String) :
    (restrictions.callAll calls).2.get? field =
      (calls.filter fun made => made.field = field).foldl
        (fun before made => made.after before) (restrictions.get? field) := by
  induction calls generalizing restrictions with
  | nil => rfl
  | cons made rest ih =>
      rw [callAll_cons, ih, get?_call]
      by_cases hfield : made.field = field
      · simp [hfield]
      · simp [hfield, Ne.symm hfield]

/-- Every restriction says something, if every restriction did before. -/
theorem sound_callAll {restrictions : Restrictions}
    (sound : ∀ field restriction, restrictions.get? field = some restriction →
      restriction.Sound) (calls : List Call) {field : String} {restriction : Restriction}
    (h : (restrictions.callAll calls).2.get? field = some restriction) :
    restriction.Sound := by
  induction calls generalizing restrictions with
  | nil => exact sound field restriction h
  | cons made rest ih =>
      rw [callAll_cons] at h
      refine ih ?_ h
      intro other later hlater
      have heffect := restrictions.call_effect made
      by_cases hanswer : (restrictions.call made).1 = .ok true
      · by_cases hother : other = made.field
        · obtain ⟨after, hturns, hafter⟩ := heffect.succeeds.mp hanswer
          rw [hother, hafter] at hlater
          cases hlater
          exact hturns.sound
        · rw [heffect.others other hother] at hlater
          exact sound other later hlater
      · rw [heffect.refused hanswer] at hlater
        exact sound other later hlater

/-- The fields with a restriction are those of the entries. -/
theorem mem_names_iff {restrictions : Restrictions} {field : String} :
    field ∈ restrictions.entries.map Prod.fst ↔
      ∃ restriction, restrictions.get? field = some restriction := by
  rw [← Option.isSome_iff_exists, get?, List.lookup_isSome_iff, List.mem_map]
  constructor
  · rintro ⟨entry, hentry, hname⟩
    exact ⟨entry, hentry, beq_iff_eq.mpr hname.symm⟩
  · rintro ⟨entry, hentry, hname⟩
    exact ⟨entry, hentry, (beq_iff_eq.mp hname).symm⟩

/-- Restrictions under any calls. A call that does not succeed leaves the restriction of
every field as it was, and one that does changes that of its own field, where an addition
keeps all there has been. After any sequence of calls every equality has a value and every
range a bound, and a field has the restriction that the calls on it alone lead to. The
restrictions are handed on as the last call leaves them, and their size is the number of
fields that have one. -/
theorem callAll_effects (calls : List Call) :
    let reached := (empty.callAll calls).2
    (∀ made : Call, made.Effect reached (reached.call made).1 (reached.call made).2) ∧
      (∀ field restriction, reached.get? field = some restriction → restriction.Sound) ∧
      (∀ field, reached.get? field =
        (empty.callAll (calls.filter fun made => made.field = field)).2.get? field) ∧
      ∃ names : List String, names.Nodup ∧
        (∀ field, field ∈ names ↔ ∃ restriction, reached.get? field = some restriction) ∧
        reached.size = names.length := by
  refine ⟨call_effect _, ?_, ?_, ?_⟩
  · intro field restriction h
    exact sound_callAll (fun _ _ hnone => by cases hnone) calls h
  · intro field
    rw [get?_callAll, get?_callAll, List.filter_filter]
    simp
  · exact ⟨_, (empty.callAll calls).2.names_nodup, fun _ => mem_names_iff,
      (List.length_map _).symm⟩

/-- Two bounds that fit together, a third one that is refused, and a value that is turned
into a range. -/
theorem callAll_effects_bounds :
    let reached := (empty.callAll [.bound "v" .lower ⟨.literal "a", true⟩,
      .equality "k" (.literal "x"), .bound "v" .lower ⟨.literal "b", true⟩,
      .bound "v" .upper ⟨.literal "m", false⟩, .rewrite "k"]).2
    reached.get? "v" =
        some (.range (some ⟨.literal "a", true⟩) (some ⟨.literal "m", false⟩)) ∧
      (∀ field, (reached.call (.bound "v" .upper ⟨.literal "z", true⟩)).2.get? field =
        reached.get? field) ∧
      reached.get? "k" =
        (empty.callAll [.equality "k" (.literal "x"), .rewrite "k"]).2.get? "k" := by
  obtain ⟨heffect, -, hown, -⟩ := callAll_effects [.bound "v" .lower ⟨.literal "a", true⟩,
    .equality "k" (.literal "x"), .bound "v" .lower ⟨.literal "b", true⟩,
    .bound "v" .upper ⟨.literal "m", false⟩, .rewrite "k"]
  exact ⟨rfl, (heffect _).refused nofun, hown "k"⟩

end Restrictions

end WideColumn
