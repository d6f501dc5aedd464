import WideColumn.Json.Token

/-!
# `WideColumn.Json.Reader`: from tokens to a document

The tokens are read one by one. The state says what may come next and holds the
containers that are open, innermost first, with what has been read of each. So
nesting is limited by nothing, and a document is read when a value is complete
and no container is open.
-/

set_option autoImplicit false

namespace WideColumn.Json

/-- An open container. -/
inductive Frame where
  /-- An array with the items before the one being read. -/
  | array (items : List Json)
  /-- An object with the members before the one being read, whose name this is. -/
  | object (members : List (List Char × Json)) (name : List Char)

/-- What may come next, inside the open containers. -/
inductive State where
  /-- A value. -/
  | value (frames : List Frame)
  /-- The first item of an array, or its end. -/
  | firstItem (frames : List Frame)
  /-- The first member name of an object, or its end. -/
  | firstName (frames : List Frame)
  /-- The name of another member. -/
  | name (members : List (List Char × Json)) (frames : List Frame)
  /-- The colon after a member name. -/
  | colon (members : List (List Char × Json)) (name : List Char) (frames : List Frame)
  /-- What follows a complete value. -/
  | done (value : Json) (frames : List Frame)

/-- The state after a token at which a value has to start. -/
def startValue (frames : List Frame) : Token → Option State
  | .leaf value => some (.done value frames)
  | .openBracket => some (.firstItem frames)
  | .openBrace => some (.firstName frames)
  | _ => none

/-- The state after a token. -/
def step : State → Token → Option State
  | .value frames, token => startValue frames token
  | .firstItem frames, .closeBracket => some (.done (.array []) frames)
  | .firstItem frames, token => startValue (.array [] :: frames) token
  | .firstName frames, .closeBrace => some (.done (.object []) frames)
  | .firstName frames, .leaf (.string name) => some (.colon [] name frames)
  | .name members frames, .leaf (.string name) => some (.colon members name frames)
  | .colon members name frames, .colon => some (.value (.object members name :: frames))
  | .done value (.array items :: frames), .comma =>
    some (.value (.array (items ++ [value]) :: frames))
  | .done value (.array items :: frames), .closeBracket =>
    some (.done (.array (items ++ [value])) frames)
  | .done value (.object members name :: frames), .comma =>
    some (.name (members ++ [(name, value)]) frames)
  | .done value (.object members name :: frames), .closeBrace =>
    some (.done (.object (members ++ [(name, value)])) frames)
  | _, _ => none

/-- The document a text spells. -/
def parse? (text : List Char) : Option Json := do
  let tokens ← tokens? text
  match ← tokens.foldlM step (.value []) with
  | .done value [] => some value
  | _ => none

end WideColumn.Json
