/-!
# `WideColumn.Operator`: comparison operators and the sides of a range

A relation compares a field with a value by one of five operators. A range has
two sides, and a bound on a side is written with the operator that `Side.operator`
gives, strict where the bound itself is left out.
-/

set_option autoImplicit false

namespace WideColumn

/-- A comparison operator. -/
inductive Operator where
  | eq
  | lt
  | lte
  | gt
  | gte
  deriving DecidableEq

/-- The operator as it is written. -/
def Operator.symbol : Operator → String
  | .eq => "="
  | .lt => "<"
  | .lte => "<="
  | .gt => ">"
  | .gte => ">="

/-- A side of a range. -/
inductive Side where
  | lower
  | upper
  deriving DecidableEq

/-- The operator of a bound on the side. -/
def Side.operator : Side → Bool → Operator
  | .lower, true => .gte
  | .lower, false => .gt
  | .upper, true => .lte
  | .upper, false => .lt

end WideColumn
