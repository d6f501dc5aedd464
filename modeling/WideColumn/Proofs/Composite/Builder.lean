import WideColumn.Composite.Builder

/-!
# `WideColumn.Proofs.Composite.Builder`: what a builder holds

A builder starts empty and only `push` changes it, so its state is always
`holding arity parts` for the parts it has accepted. The theorems:

* `push_holding_of_lt` / `push_holding_of_ge`: one call. There is room for the
  part and it is accepted, or there is none and the builder stays as it is.
* `callAll_holding`: a sequence of calls that goes on after failures. The
  builder accepts what it has room for and refuses the rest.
* `ofParts_eq_ok`: parts that fit are all accepted.
-/

set_option autoImplicit false

namespace WideColumn.Composite

/-- Components with the operators they are added with, as components with their
markers. -/
def marked (parts : List (Bytes × Operator)) : List (Bytes × Marker) :=
  parts.map fun part => (part.1, markerOf part.2)

/-- No parts have no marks. -/
@[simp]
theorem marked_nil : marked [] = [] :=
  rfl

/-- Every part has its own mark. -/
@[simp]
theorem marked_cons (part : Bytes × Operator) (parts : List (Bytes × Operator)) :
    marked (part :: parts) = (part.1, markerOf part.2) :: marked parts :=
  rfl

/-- So parts can be marked in two halves. -/
@[simp]
theorem marked_append (parts others : List (Bytes × Operator)) :
    marked (parts ++ others) = marked parts ++ marked others :=
  List.map_append

/-- The components of parts do not depend on how they are closed. -/
@[simp]
theorem map_fst_marked (parts : List (Bytes × Operator)) :
    (marked parts).map Prod.fst = parts.map Prod.fst := by
  simp [marked]

/-- A name without parts is empty. -/
@[simp]
theorem write_nil : write [] = [] :=
  rfl

/-- A name is written part by part. -/
@[simp]
theorem write_append (parts others : List (Bytes × Marker)) :
    write (parts ++ others) = write parts ++ write others :=
  List.flatMap_append

/-- The first part comes first. -/
theorem write_cons (part : Bytes × Marker) (parts : List (Bytes × Marker)) :
    write (part :: parts) = writeComponent part.1 part.2 ++ write parts :=
  rfl

/-- A name of one part is that part with its mark. -/
theorem write_singleton (part : Bytes × Marker) :
    write [part] = writeComponent part.1 part.2 := by
  rw [write_cons, write_nil, List.append_nil]

namespace Builder

/-- The builder that has accepted these parts. -/
def holding (arity : Nat) (parts : List (Bytes × Operator)) : Builder :=
  { arity, count := parts.length, name := write (marked parts) }

/-- The name that a builder builds is written from the parts it holds. -/
@[simp]
theorem build_holding (arity : Nat) (parts : List (Bytes × Operator)) :
    (holding arity parts).build = write (marked parts) :=
  rfl

/-- The end of a range is that name, with its last mark raised. -/
@[simp]
theorem buildEndOfRange_holding (arity : Nat) (parts : List (Bytes × Operator)) :
    (holding arity parts).buildEndOfRange = endOfRange (write (marked parts)) :=
  rfl

/-- A new builder holds no parts. -/
theorem holding_nil (arity : Nat) : holding arity [] = { arity } :=
  rfl

/-- A component there is room for is closed with its operator's marker and
appended. -/
theorem push_of_lt {builder : Builder} (h : builder.count < builder.arity)
    (component : Bytes) (operator : Operator) :
    push component operator builder =
      .ok () { builder with
        count := builder.count + 1
        name := builder.name ++ writeComponent component (markerOf operator) } := by
  have hroom : ¬ builder.count ≥ builder.arity := Nat.not_le.mpr h
  unfold push
  show (if builder.count ≥ builder.arity then _ else _ : EStateM Error Builder Unit) builder = _
  rw [if_neg hroom]
  rfl

/-- A component there is no room for is refused, and the builder is the same
afterwards. -/
theorem push_of_ge {builder : Builder} (h : builder.arity ≤ builder.count)
    (component : Bytes) (operator : Operator) :
    push component operator builder =
      .error (.violation (.compositeFull builder.arity)) builder := by
  unfold push
  show (if builder.count ≥ builder.arity then _ else _ : EStateM Error Builder Unit) builder = _
  rw [if_pos h]
  rfl

/-- While there is room, a component is added. -/
theorem push_holding_of_lt {arity : Nat} {parts : List (Bytes × Operator)}
    (h : parts.length < arity) (component : Bytes) (operator : Operator) :
    push component operator (holding arity parts) =
      .ok () (holding arity (parts ++ [(component, operator)])) := by
  have hroom : (holding arity parts).count < (holding arity parts).arity := h
  rw [push_of_lt hroom]
  simp [holding, write_singleton]

/-- When there is none, the component is refused and the builder stays as it is. -/
theorem push_holding_of_ge {arity : Nat} {parts : List (Bytes × Operator)}
    (h : arity ≤ parts.length) (component : Bytes) (operator : Operator) :
    push component operator (holding arity parts) =
      .error (.violation (.compositeFull arity)) (holding arity parts) := by
  have hfull : (holding arity parts).arity ≤ (holding arity parts).count := h
  rw [push_of_ge hfull]
  rfl

/-- `add` on a builder with room. -/
theorem add_holding_of_lt {arity : Nat} {parts : List (Bytes × Operator)}
    (h : parts.length < arity) (component : Bytes) (operator : Operator) :
    (holding arity parts).add component operator =
      .ok (holding arity (parts ++ [(component, operator)])) := by
  unfold add
  rw [push_holding_of_lt h]

/-! ### Sequences of calls -/

/-- The answer of one call, and the builder it leaves behind. -/
def call (builder : Builder) (part : Bytes × Operator) : Except Error Unit × Builder :=
  match push part.1 part.2 builder with
  | .ok _ next => (.ok (), next)
  | .error error next => (.error error, next)

/-- The answers of calls made one after the other, whether they succeed or not,
and the builder after the last one. -/
def callAll (builder : Builder) :
    List (Bytes × Operator) → List (Except Error Unit) × Builder
  | [] => ([], builder)
  | part :: rest =>
    let (answer, next) := builder.call part
    let (answers, last) := next.callAll rest
    (answer :: answers, last)

/-- What a builder of `arity` components answers to a sequence of calls when it
has room for `room` more: it accepts so many and refuses all others. -/
def answers (arity room : Nat) (calls : List (Bytes × Operator)) :
    List (Except Error Unit) :=
  (calls.take room).map (fun _ => .ok ()) ++
    (calls.drop room).map fun _ => .error (.violation (.compositeFull arity))

/-- The builder after a sequence of calls holds what it held before and the
components it had room for. -/
theorem callAll_holding (arity : Nat) (parts calls : List (Bytes × Operator)) :
    (holding arity parts).callAll calls =
      (answers arity (arity - parts.length) calls,
        holding arity (parts ++ calls.take (arity - parts.length))) := by
  induction calls generalizing parts with
  | nil => simp [callAll, answers]
  | cons part rest ih =>
      obtain ⟨component, operator⟩ := part
      by_cases h : parts.length < arity
      · -- One part more, and room for one less.
        have hroom : arity - parts.length =
            arity - (parts ++ [(component, operator)]).length + 1 := by
          rw [List.length_append, List.length_singleton]
          omega
        rw [callAll, call, push_holding_of_lt h, hroom]
        simp only [ih, answers, List.take_succ_cons, List.drop_succ_cons, List.map_cons,
          List.cons_append, List.append_assoc, List.nil_append]
      · have hroom : arity - parts.length = 0 := by omega
        rw [callAll, call, push_holding_of_ge (Nat.not_lt.mp h)]
        simp only [ih, hroom, answers, List.take_zero, List.drop_zero, List.map_nil,
          List.nil_append, List.append_nil, List.map_cons]

/-- A new builder with these parts added, refused when one of them is. -/
def ofParts (arity : Nat) (parts : List (Bytes × Operator)) : Except Error Builder :=
  parts.foldlM (fun builder part => builder.add part.1 part.2) { arity }

/-- Adding parts that fit to a builder. -/
theorem foldlM_add_holding {arity : Nat} {parts more : List (Bytes × Operator)}
    (h : parts.length + more.length ≤ arity) :
    more.foldlM (fun builder part => builder.add part.1 part.2) (holding arity parts) =
      .ok (holding arity (parts ++ more)) := by
  induction more generalizing parts with
  | nil => rw [List.append_nil]; rfl
  | cons part rest ih =>
      rw [List.length_cons] at h
      have hnext : (parts ++ [(part.1, part.2)]).length + rest.length ≤ arity := by
        rw [List.length_append, List.length_singleton]
        omega
      rw [List.foldlM_cons, add_holding_of_lt (by omega)]
      show rest.foldlM _ (holding arity (parts ++ [(part.1, part.2)])) = _
      rw [ih hnext, List.append_assoc, List.singleton_append]

/-- Parts that fit are all accepted. -/
theorem ofParts_eq_ok {arity : Nat} {parts : List (Bytes × Operator)}
    (h : parts.length ≤ arity) : ofParts arity parts = .ok (holding arity parts) := by
  unfold ofParts
  rw [← holding_nil, foldlM_add_holding (by simpa using h), List.nil_append]

end Builder

end WideColumn.Composite
