import WideColumn.Json

/-!
# `WideColumn.Json.Printer`: the text of a document

`compact` writes a document without blanks. `pretty` writes each item and member
on a line of its own, two spaces further in than its container, and an empty
container as its two brackets. Neither ends in a line break.
-/

set_option autoImplicit false

namespace WideColumn.Json

/-- A string body or member name in its quotes. -/
def quoted (body : List Char) : List Char :=
  '"' :: (body ++ ['"'])

mutual

/-- The document without blanks. -/
def compact : Json → List Char
  | .null => "null".toList
  | .bool true => "true".toList
  | .bool false => "false".toList
  | .number literal => literal
  | .string body => quoted body
  | .array items => '[' :: (compactItems items ++ [']'])
  | .object members => '\x7b' :: (compactMembers members ++ ['\x7d'])

/-- The items of an array, separated by commas. -/
def compactItems : List Json → List Char
  | [] => []
  | [item] => compact item
  | item :: next :: rest => compact item ++ ',' :: compactItems (next :: rest)

/-- The members of an object, separated by commas. -/
def compactMembers : List (List Char × Json) → List Char
  | [] => []
  | [(name, value)] => quoted name ++ ':' :: compact value
  | (name, value) :: next :: rest =>
    quoted name ++ ':' :: (compact value ++ ',' :: compactMembers (next :: rest))

end

/-- A line break and the blanks in front of a line at a depth. -/
def lineStart (depth : Nat) : List Char :=
  '\n' :: List.replicate (2 * depth) ' '

mutual

/-- The document over several lines, inside `depth` containers. -/
def prettyAt (depth : Nat) : Json → List Char
  | .null => "null".toList
  | .bool true => "true".toList
  | .bool false => "false".toList
  | .number literal => literal
  | .string body => quoted body
  | .array [] => ['[', ']']
  | .array (item :: rest) =>
    '[' :: (prettyItems (depth + 1) (item :: rest) ++ lineStart depth ++ [']'])
  | .object [] => ['\x7b', '\x7d']
  | .object (member :: rest) =>
    '\x7b' :: (prettyMembers (depth + 1) (member :: rest) ++ lineStart depth ++ ['\x7d'])

/-- The items of an array, each on a line at the depth. -/
def prettyItems (depth : Nat) : List Json → List Char
  | [] => []
  | [item] => lineStart depth ++ prettyAt depth item
  | item :: next :: rest =>
    lineStart depth ++ prettyAt depth item ++ ',' :: prettyItems depth (next :: rest)

/-- The members of an object, each on a line at the depth. -/
def prettyMembers (depth : Nat) : List (List Char × Json) → List Char
  | [] => []
  | [(name, value)] =>
    lineStart depth ++ quoted name ++ ':' :: ' ' :: prettyAt depth value
  | (name, value) :: next :: rest =>
    lineStart depth ++ quoted name ++ ':' :: ' ' ::
      (prettyAt depth value ++ ',' :: prettyMembers depth (next :: rest))

end

/-- The document over several lines. -/
def pretty (document : Json) : List Char :=
  prettyAt 0 document

end WideColumn.Json
