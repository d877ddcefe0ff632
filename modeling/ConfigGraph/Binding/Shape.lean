import ConfigGraph.Number.IntType
import ConfigGraph.Number.Binary
import ConfigGraph.Error

/-!
# Shapes and bound values

A shape says what is read from the store and where: scalars, optional values, sequences, mappings
by name and records, whose fields carry the tags they are read by.
-/

namespace ConfigGraph

open Number (Binary BinaryFormat IntType)

/-- A floating-point type by its name. -/
inductive FloatType where
  | f32
  | f64

namespace FloatType

def format : FloatType → BinaryFormat
  | f32 => Number.binary32
  | f64 => Number.binary64

def name : FloatType → String
  | f32 => "f32"
  | f64 => "f64"

end FloatType

/-- A field of a record: its name, the tag it is read by and its shape. -/
structure Field (σ : Type) where
  name : Text
  tag : Text
  shape : σ

/-- What is to be read from the store. -/
inductive Shape where
  | int (type : IntType)
  | float (type : FloatType)
  | bool
  | char
  | text
  | path
  | duration
  | option (item : Shape)
  | list (item : Shape)
  | mapping (item : Shape)
  | record (name : Text) (fields : List (Field Shape))
  /-- Reads nothing and reports where it stands. -/
  | probe (composite : Bool)

namespace Shape

/-- Whether the shape has parts. An optional value has them when its content does. -/
def isComposite : Shape → Bool
  | int _ | float _ | bool | char | text | path | duration => false
  | option item => item.isComposite
  | list _ | mapping _ | record .. => true
  | probe composite => composite

/-- The name that error paths start with: that of the innermost element. -/
def rootName : Shape → Text
  | int type => type.name.toList
  | float type => type.name.toList
  | bool => "bool".toList
  | char => "char".toList
  | text => "String".toList
  | path => "PathBuf".toList
  | duration => "Duration".toList
  | option item | list item | mapping item => item.rootName
  | record name _ => name
  | probe composite => (if composite then "Probe" else "ProbeScalar").toList

end Shape

/-- Where a probe stands and what it sees from there. -/
structure Report where
  key : Text
  path : Text
  default? : Option Text
  isPresent : Bool
  entries : List Text
  value : Except ConfigError (Option Text)
  required : Except ConfigError Text
  /-- The number of leaves of the store. -/
  stored : Nat
  /-- Key, path and presence of the element with the number 1. -/
  element : Text × Text × Bool
  /-- Key, path and presence of the entry `sub`. -/
  entry : Text × Text × Bool

/-- A value read from the store. -/
inductive Bound where
  | int (n : Int)
  | float (type : FloatType) (x : Binary)
  | bool (b : Bool)
  | char (c : Char)
  | text (s : Text)
  /-- A duration in nanoseconds. -/
  | duration (nanos : Nat)
  | none
  | some (content : Bound)
  | list (items : List Bound)
  /-- The entries of a mapping, in the order of their names. -/
  | mapping (entries : List (Text × Bound))
  /-- The fields of a record, in their own order. -/
  | record (fields : List (Text × Bound))
  | report (r : Report)

end ConfigGraph
