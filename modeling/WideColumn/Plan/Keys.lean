import WideColumn.Plan

/-!
# `WideColumn.Plan.Keys`: the partitions a plan reads

A plan reads either exact partition keys, where the partition key has an
equality, or a range of them. An absent bound of the range is told as an empty
and inclusive one.
-/

set_option autoImplicit false

namespace WideColumn

/-- The partitions to read. -/
inductive KeyScan where
  /-- The partitions with these keys. -/
  | keys (keys : List Bytes)
  /-- The partitions between two keys; an empty side is open. -/
  | range (start : Bytes) (startInclusive : Bool) (finish : Bytes) (finishInclusive : Bool)

namespace Plan

/-- Whether the plan reads a range of partitions. -/
def isKeyRange (plan : Plan) : Bool :=
  plan.indexed || !plan.hasEquality plan.layout.keyField

/-- The exact partition keys. -/
def keys (plan : Plan) (vars : List Bytes) : Except Error (List Bytes) :=
  match plan.restriction? plan.layout.keyField with
  | some (.equality values) =>
    values.mapM fun term => term.value plan.layout.keyField vars
  | _ => .error (.violation .noExactKeys)

/-- The key on a side of the range of partitions. -/
def keyBound (plan : Plan) (side : Side) (vars : List Bytes) : Except Error Bytes :=
  match plan.restriction? plan.layout.keyField with
  | none => .ok []
  | some (.equality [term]) => term.value plan.layout.keyField vars
  | some (.equality _) => .error (.violation .severalKeys)
  | some (.range lower upper) =>
    match Restriction.bound? (.range lower upper) side with
    | some bound => bound.term.value plan.layout.keyField vars
    | none => .ok []

/-- Whether the key on a side belongs to the range of partitions. -/
def includesKeyBound (plan : Plan) (side : Side) : Bool :=
  match (plan.restriction? plan.layout.keyField).bind fun r => r.bound? side with
  | some bound => bound.inclusive
  | none => true

/-- The partitions to read. -/
def keyScan (plan : Plan) (vars : List Bytes) : Except Error KeyScan :=
  if plan.isKeyRange then do
    let start ← plan.keyBound .lower vars
    let finish ← plan.keyBound .upper vars
    return .range start (plan.includesKeyBound .lower) finish (plan.includesKeyBound .upper)
  else KeyScan.keys <$> plan.keys vars

end Plan

end WideColumn
