import ConfigGraph.Value.NumberText

/-!
# JSON trees

What a JSON text or a serialized value stands for (`Json`), and the configuration data that is made
of it (`Value.ofJson`).
-/

namespace ConfigGraph

open Number (Binary)

/-- A JSON tree. The names of an object stand in order, each once. -/
inductive Json where
  | null
  | bool (b : Bool)
  /-- A whole number of 64 bits, with or without a sign. -/
  | integer (n : Int)
  /-- Any other number, which is finite. -/
  | float (x : Binary)
  | string (s : Text)
  | array (items : List Json)
  | object (members : List (Text × Json))

/-- The tree of a floating-point number, or null where JSON has no number. -/
def Json.ofFloat (x : Binary) : Json :=
  if x.isFinite then .float x else .null

namespace Value

mutual

/-- A JSON tree as configuration data. A number that is no 64-bit integer with a sign is kept as its
text. -/
def ofJson : Json → Value
  | .null => null
  | .bool b => bool b
  | .integer n => ofInt n
  | .float x => text (jsonDouble.write Number.binary64 x)
  | .string s => text s
  | .array items => seq (ofJsonItems items)
  | .object members => ofEntries (ofJsonMembers members)

/-- The items of an array. -/
def ofJsonItems : List Json → List Value
  | [] => []
  | j :: rest => ofJson j :: ofJsonItems rest

/-- The members of an object. -/
def ofJsonMembers : List (Text × Json) → List (Text × Value)
  | [] => []
  | (name, j) :: rest => (name, ofJson j) :: ofJsonMembers rest

end

end Value

end ConfigGraph
