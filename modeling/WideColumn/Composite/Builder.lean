import WideColumn.Error

/-!
# `WideColumn.Composite.Builder`: composite names built step by step

A builder takes components one at a time, each with the operator that decides
its marker, up to a fixed number. A component too many is refused and changes
nothing.
-/

set_option autoImplicit false

namespace WideColumn.Composite

/-- A composite name under construction. -/
structure Builder where
  /-- The most components there may be. -/
  arity : Nat
  /-- The components added so far. -/
  count : Nat := 0
  /-- The name of the components added so far. -/
  name : Bytes := []

namespace Builder

/-- Adds a component in place. A component too many is refused before anything
has changed. -/
def push (component : Bytes) (operator : Operator) : EStateM Error Builder Unit := do
  let builder ← get
  if builder.count ≥ builder.arity then
    throw (.violation (.compositeFull builder.arity))
  set { builder with
    count := builder.count + 1
    name := builder.name ++ writeComponent component (markerOf operator) }

/-- The builder with one more component. -/
def add (builder : Builder) (component : Bytes) (operator : Operator) :
    Except Error Builder :=
  match push component operator builder with
  | .ok _ next => .ok next
  | .error error _ => .error error

/-- The name of the components. -/
def build (builder : Builder) : Bytes :=
  builder.name

/-- The name that sorts after every name that continues the components. -/
def buildEndOfRange (builder : Builder) : Bytes :=
  endOfRange builder.name

end Builder

end WideColumn.Composite
