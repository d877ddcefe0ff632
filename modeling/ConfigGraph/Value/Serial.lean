import ConfigGraph.Format.Json.Tree
import ConfigGraph.Text.Utf8

/-!
# Serialized values

A typed value described by the parts it is made of, the JSON tree that stands for it, and the
configuration data that this is. Names of map entries must be scalars.
-/

namespace ConfigGraph

open Number (Binary IntType binary32 binary64)

/-- A typed value as the sequence of its parts. -/
inductive Serial where
  | unit
  | none
  | some (content : Serial)
  | bool (b : Bool)
  /-- A whole number of at most 128 bits. -/
  | int (n : Int)
  | double (x : Binary)
  | single (x : Binary)
  | char (c : Char)
  | text (s : Text)
  | bytes (bs : List UInt8)
  /-- A variant without content. -/
  | variant (name : Text)
  /-- A variant with content. -/
  | tagged (name : Text) (content : Serial)
  | seq (items : List Serial)
  | map (entries : List (Serial × Serial))

/-- Why a value has no tree. -/
inductive SerialError where
  | numberOutOfRange
  | keyNotText
  | floatKeyNotFinite

def SerialError.message : SerialError → String
  | numberOutOfRange => "number out of range"
  | keyNotText => "key must be a string"
  | floatKeyNotFinite => "float key must be finite (got NaN or +/-inf)"

namespace Serial

/-- The name that a scalar gives to a map entry. -/
def key : Serial → Except SerialError Text
  | bool b => .ok (Value.boolText b)
  | int n => .ok (Number.writeInt n)
  | double x =>
    if x.isFinite then .ok (Value.jsonDouble.write binary64 x) else .error .floatKeyNotFinite
  | single x =>
    if x.isFinite then .ok (Value.jsonSingle.write binary32 x) else .error .floatKeyNotFinite
  | char c => .ok [c]
  | text s | variant s => .ok s
  | unit | none | some _ | bytes _ | tagged .. | seq _ | map _ => .error .keyNotText

mutual

/-- The JSON tree of a value. -/
def toJson : Serial → Except SerialError Json
  | unit | none => .ok .null
  | some s => s.toJson
  | bool b => .ok (.bool b)
  | int n =>
    if IntType.i64.holds n || IntType.u64.holds n then .ok (.integer n)
    else .error .numberOutOfRange
  | double x => .ok (.ofFloat x)
  | single x => .ok (.ofFloat (binary64.convert x))
  | char c => .ok (.string [c])
  | text s | variant s => .ok (.string s)
  | bytes bs => .ok (.array (bs.map fun b => .integer b.toNat))
  | tagged name s => do return .object [(name, ← s.toJson)]
  | seq items => return .array (← itemTrees items)
  | map entries => return .object (Entries.ofList (← entryTrees entries))

/-- The trees of the items of a sequence. -/
def itemTrees : List Serial → Except SerialError (List Json)
  | [] => .ok []
  | s :: rest => do return (← s.toJson) :: (← itemTrees rest)

/-- The named trees of the entries of a map. -/
def entryTrees : List (Serial × Serial) → Except SerialError (List (Text × Json))
  | [] => .ok []
  | (k, s) :: rest => do
    let name ← k.key
    return (name, ← s.toJson) :: (← entryTrees rest)

end

/-- The configuration data of a value. -/
def toValue (s : Serial) : Except SerialError Value :=
  s.toJson.map .ofJson

end Serial

end ConfigGraph
