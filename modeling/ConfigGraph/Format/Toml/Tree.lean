import ConfigGraph.Value.Basic

/-!
# TOML trees

What a TOML document stands for (`Toml`), and the configuration data that is made of it
(`Value.ofToml`).
-/

namespace ConfigGraph

open Number (Binary)

/-- A TOML tree. The names of a table stand in order, each once. -/
inductive Toml where
  | string (s : Text)
  /-- A whole number of 64 bits with a sign. -/
  | integer (n : Int)
  | float (x : Binary)
  | boolean (b : Bool)
  /-- A date or a time in canonical form. -/
  | datetime (t : Text)
  | array (items : List Toml)
  | table (entries : List (Text × Toml))

namespace Value

mutual

/-- A TOML tree as configuration data. A date or a time is kept as its text. -/
def ofToml : Toml → Value
  | .string s => text s
  | .integer n => int n
  | .float x => float x
  | .boolean b => bool b
  | .datetime t => text t
  | .array items => seq (ofTomlItems items)
  | .table entries => ofEntries (ofTomlEntries entries)

/-- The items of an array. -/
def ofTomlItems : List Toml → List Value
  | [] => []
  | t :: rest => ofToml t :: ofTomlItems rest

/-- The entries of a table. -/
def ofTomlEntries : List (Text × Toml) → List (Text × Value)
  | [] => []
  | (name, t) :: rest => (name, ofToml t) :: ofTomlEntries rest

end

end Value

end ConfigGraph
