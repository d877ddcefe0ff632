import ConfigGraph.Entries
import ConfigGraph.Number.IntType
import ConfigGraph.Number.Layout

/-!
# Trees of configuration data

What decoders produce and what the store takes apart and puts together again.
-/

namespace ConfigGraph

open Number (Binary IntType)

/-- A tree of configuration data. The names of a map stand in order, each once. -/
inductive Value where
  | null
  | bool (b : Bool)
  | int (n : Int)
  | float (x : Binary)
  | text (s : Text)
  | seq (items : List Value)
  | map (entries : List (Text × Value))

namespace Value

/-- The word for a truth value. -/
def boolText (b : Bool) : Text :=
  if b then ['t', 'r', 'u', 'e'] else ['f', 'a', 'l', 's', 'e']

/-- The text that stands for a scalar in a store; composites have none. -/
def scalar? : Value → Option Text
  | null => some []
  | bool b => some (boolText b)
  | int n => some (Number.writeInt n)
  | float x => some (Number.plain.write Number.binary64 x)
  | text s => some s
  | seq _ | map _ => none

/-- The text of a text. -/
def text? : Value → Option Text
  | text s => some s
  | _ => none

def isComposite : Value → Bool
  | seq _ | map _ => true
  | _ => false

/-- A map of the given entries; of equal names the last one stays. -/
def ofEntries (es : List (Text × Value)) : Value :=
  map (Entries.ofList es)

/-- A whole number: beyond 64 bits with a sign it is kept as its numeral. -/
def ofInt (n : Int) : Value :=
  if IntType.i64.holds n then int n else text (Number.writeInt n)

end Value

end ConfigGraph
