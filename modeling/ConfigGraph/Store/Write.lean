import ConfigGraph.Store.Basic
import ConfigGraph.Value.Serial

/-!
# Writing trees

A tree is written leaf by leaf: the entries of a map under the key and their name, the items of a
sequence under the key and their number. A composite replaces a text at its own key, and one
without leaves adds nothing.
-/

namespace ConfigGraph.Store

mutual

/-- Writes a tree under a key as it is stored. -/
def write (s : Store) (key : Text) : Value → Store
  | .map entries => writeEntries (s.erase key) key entries
  | .seq items => writeItems (s.erase key) key 0 items
  | .null => s.put key []
  | .bool b => s.put key (Value.boolText b)
  | .int n => s.put key (Number.writeInt n)
  | .float x => s.put key (Number.plain.write Number.binary64 x)
  | .text t => s.put key t

/-- Writes the entries of a map, in order. -/
def writeEntries (s : Store) (key : Text) : List (Text × Value) → Store
  | [] => s
  | (name, v) :: rest => writeEntries (s.write (Key.join key name) v) key rest

/-- Writes the items of a sequence, counted from `index`. -/
def writeItems (s : Store) (key : Text) (index : Nat) : List Value → Store
  | [] => s
  | v :: rest => writeItems (s.write (Key.element key index) v) key (index + 1) rest

end

/-- Stores a tree under a key. -/
def set (s : Store) (key : Text) (v : Value) : Store :=
  s.write (Key.normalize key) v

/-- A store of the given trees, set one after the other. -/
def ofList (es : List (Text × Value)) : Store :=
  es.foldl (fun s (key, v) => s.set key v) empty

/-- Stores every leaf of another store. -/
def merge (s other : Store) : Store :=
  other.entries.foldl (fun s (key, text) => s.put key text) s

/-- Stores a serialized value under a key. -/
def setSerial (s : Store) (key : Text) (v : Serial) : Except SerialError Store :=
  v.toValue.map (s.set key)

end ConfigGraph.Store
