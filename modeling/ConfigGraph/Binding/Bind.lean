import ConfigGraph.Binding.Cursor
import ConfigGraph.Binding.Duration

/-!
# Binding

Reading a value of a given shape from the store. Sequences are read from the numbered elements
below their key when there is a first one, and else from a text with commas; records read their
fields in order, and the first error ends the reading.
-/

namespace ConfigGraph

open Number (IntType)

/-- The words and digits for truth values. -/
def readBool? (s : Text) : Option Bool :=
  let s := Text.trim s
  let isOne (words : List String) : Bool := words.any fun w => s == w.toList
  if isOne ["1", "t", "T", "true", "TRUE", "True"] then some true
  else if isOne ["0", "f", "F", "false", "FALSE", "False"] then some false
  else none

/-- The only character of a text. -/
def readChar? : Text → Option Char
  | [c] => some c
  | _ => none

mutual

/-- Reads a value at a position. -/
def Cursor.bind (c : Cursor) : Shape → Except ConfigError Bound
  | .int type => .int <$> c.convert type.name fun s => type.read? (Text.trim s)
  | .float type => .float type <$> c.convert type.name fun s => type.format.read? (Text.trim s)
  | .bool => .bool <$> c.convert "bool" readBool?
  | .char => .char <$> c.convert "char" readChar?
  | .text | .path => .text <$> c.require
  | .duration => .duration <$> c.convert "core::time::Duration" Duration.read?
  | .option item =>
    let present := if item.isComposite then c.store.has c.key else c.isPresent
    if !present && c.default?.isNone then .ok .none else .some <$> Cursor.bind c item
  | .list item => do
    let elements ←
      if c.lookup && c.store.has (Key.element c.key 0) then pure c.elements
      else c.scattered <$> Cursor.commaPieces <$> c.require
    .list <$> elements.mapM fun e => do
      e.checkDefault item
      Cursor.bind e item
  | .mapping item => do
    let names := c.entries
    if names.isEmpty && c.default?.isNone then throw (.propertyNotFound c.key c.path)
    let entries ← names.mapM fun name => do
      (c.entry name).checkDefault item
      return (name, ← Cursor.bind (c.entry name) item)
    return .mapping (Entries.ofList entries)
  | .record _ fields => .record <$> Cursor.bindFields c fields
  | .probe _ => .ok (.report c.report)

/-- Reads the fields of a record. -/
def Cursor.bindFields (c : Cursor) : List (Field Shape) → Except ConfigError (List (Text × Bound))
  | [] => .ok []
  | ⟨name, tag, shape⟩ :: rest => do
    let inner := c.field name (← Tag.parse tag)
    inner.checkDefault shape
    let value ← Cursor.bind inner shape
    return (name, value) :: (← Cursor.bindFields c rest)

end

/-- Where binding starts: at the root, at a key, or where a tag leads. -/
inductive Start where
  | root
  | key (key : Text)
  | tag (tag : Text)

/-- The tag that leads to a start. -/
def Start.text : Start → Text
  | root => ['$', '{', '}']
  | key k => ['$', '{'] ++ k ++ ['}']
  | tag t => t

/-- Reads a value from a store; error paths start with the given name. -/
def Store.bindAs (store : Store) (root : Text) (start : Start) (shape : Shape) :
    Except ConfigError Bound := do
  let c := Cursor.ofTag store (← Tag.parse start.text) root
  c.checkDefault shape
  c.bind shape

/-- Reads a value from a store. -/
def Store.bind (store : Store) (start : Start) (shape : Shape) : Except ConfigError Bound :=
  store.bindAs shape.rootName start shape

end ConfigGraph
