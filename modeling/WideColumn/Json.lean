/-!
# `WideColumn.Json`: JSON documents

A document is kept as it is spelt: a number is its literal, and a string or a
member name is its body, the characters between the quotes with their escapes.
So reading loses nothing that a use of the document could ask for, and strings
that spell half a surrogate pair, which JSON's grammar allows, can be told from
strings that spell a text.
-/

set_option autoImplicit false

namespace WideColumn

/-- A JSON value as it is spelt. -/
inductive Json where
  | null
  | bool (value : Bool)
  | number (literal : List Char)
  | string (body : List Char)
  | array (items : List Json)
  | object (members : List (List Char × Json))

end WideColumn
