import WideColumn.Bytes
import WideColumn.Operator

/-!
# `WideColumn.Composite`: composite names

A composite name holds several components in one byte string. Each component is
written escaped, a zero byte as `00 FF`, and closed by a zero byte and a marker:

    component   = escape component ++ [00, marker]

The zero of a closing sorts before every byte of a longer component, and before
the `FF` of an escaped zero any marker, so names compare as their components do.
The marker places a bound among the stored names that share its components:
before all of them, as one of them, or after all of them. Stored names have the
marker `exact` throughout.
-/

set_option autoImplicit false

namespace WideColumn.Composite

/-- Where a component's end sorts among the names that continue it. -/
inductive Marker where
  /-- Before every name with the component. -/
  | before
  /-- The component of a stored name. -/
  | exact
  /-- After every name with the component. -/
  | after
  deriving DecidableEq

/-- The byte of a marker. -/
def Marker.toByte : Marker → UInt8
  | .before => 0x00
  | .exact => 0x01
  | .after => 0x02

/-- The marker of a byte. -/
def Marker.ofByte? (b : UInt8) : Option Marker :=
  if b = 0x00 then some .before
  else if b = 0x01 then some .exact
  else if b = 0x02 then some .after
  else none

/-- A marker is read back from its byte. -/
theorem Marker.ofByte?_toByte (marker : Marker) : ofByte? marker.toByte = some marker := by
  cases marker <;> rfl

/-- The marker of a bound written with the operator: a bound that leaves the
component's names on its upper side comes before them, one that leaves them on
its lower side after them. -/
def markerOf : Operator → Marker
  | .lt | .gte => .before
  | .eq => .exact
  | .gt | .lte => .after

/-- The bytes of a component with every zero escaped. -/
def escape (component : Bytes) : Bytes :=
  component.flatMap fun b => if b = 0x00 then [0x00, 0xFF] else [b]

/-- A component, escaped and closed. -/
def writeComponent (component : Bytes) (marker : Marker) : Bytes :=
  escape component ++ [0x00, marker.toByte]

/-- A name of components with their markers. -/
def write (parts : List (Bytes × Marker)) : Bytes :=
  parts.flatMap fun part => writeComponent part.1 part.2

/-- The stored name of components. -/
def encode (components : List Bytes) : Bytes :=
  write (components.map fun c => (c, .exact))

/-- The name with its last marker turned into `after`, so that it sorts after
every name that continues it. The empty name stays empty. -/
def endOfRange (name : Bytes) : Bytes :=
  match name.getLast? with
  | some _ => name.dropLast ++ [Marker.after.toByte]
  | none => []

/-- The component at a position, empty past the last one. -/
def componentAt (components : List Bytes) (position : Nat) : Bytes :=
  components.getD position []

end WideColumn.Composite
