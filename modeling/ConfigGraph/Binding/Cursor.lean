import ConfigGraph.Binding.Shape
import ConfigGraph.Reference.Resolve
import ConfigGraph.Store.Write

/-!
# Cursors

A position in the store from which a value is read: its key, the default of the tag that led
there, and the path from the root value for error messages.
-/

namespace ConfigGraph

/-- A position in the store. -/
structure Cursor where
  store : Store
  key : Text
  default? : Option Text
  /-- Whether the key is looked up at all; a tag without a key only has its default. -/
  lookup : Bool
  path : Text

namespace Cursor

/-- The position a tag leads to. -/
def ofTag (store : Store) (tag : Tag) (path : Text) : Cursor :=
  let key := Key.normalize tag.key
  { store, key, default? := tag.default?, lookup := !key.isEmpty, path }

/-- A position that is looked up and has no default. -/
def child (c : Cursor) (key path : Text) : Cursor :=
  { store := c.store, key, default? := none, lookup := true, path }

/-- The position of a field of a record, whose tag is read under the key of the record. -/
def field (c : Cursor) (name : Text) (tag : Tag) : Cursor :=
  let inner := ofTag c.store tag (c.path ++ '.' :: name)
  { inner with key := if inner.lookup then Key.join c.key inner.key else c.key }

/-- The position of a numbered element. -/
def element (c : Cursor) (index : Nat) : Cursor :=
  c.child (Key.element c.key index) (Key.element c.path index)

/-- The position of a named entry. -/
def entry (c : Cursor) (name : Text) : Cursor :=
  c.child (Key.join c.key name) (c.path ++ '.' :: name)

/-- The names of the entries below the key. -/
def entries (c : Cursor) : List Text :=
  c.store.group c.key

/-- Whether the key is looked up and there is a leaf at it or below it. -/
def isPresent (c : Cursor) : Bool :=
  c.lookup && c.store.has c.key

/-- The elements from number 0 on up to the first that is absent. -/
def elements (c : Cursor) : List Cursor :=
  ((List.range c.store.size).map c.element).takeWhile (·.isPresent)

/-- The resolved text of the key, or else the resolved default; nothing when both are absent. -/
def value (c : Cursor) : Except ConfigError (Option Text) :=
  Reference.tagValue c.store [] ⟨if c.lookup then c.key else [], c.default?⟩

/-- The resolved text, whose absence is an error. -/
def require (c : Cursor) : Except ConfigError Text := do
  match ← c.value with
  | some text => return text
  | none => throw (.propertyNotFound c.key c.path)

/-- The resolved text converted to a type. -/
def convert {α : Type} (c : Cursor) (target : String) (read? : Text → Option α) :
    Except ConfigError α := do
  let text ← c.require
  match read? text with
  | some a => return a
  | none => throw (.coerce c.key text target)

/-- Refuses a default that is not empty where the value has parts. -/
def checkDefault (c : Cursor) (shape : Shape) : Except ConfigError Unit :=
  if shape.isComposite && c.default?.any (!·.isEmpty) then
    .error (.compositeDefault c.key c.path)
  else .ok ()

/-- The pieces of a text between commas, without the white space around them and without empty
ones. -/
def commaPieces (text : Text) : List Text :=
  ((List.splitOn ',' text).map Text.trim).filter (!·.isEmpty)

/-- Positions of the given texts, as elements of a store of their own under the same key. The
texts are escaped, so that they are read as they stand. -/
def scattered (c : Cursor) (pieces : List Text) : List Cursor :=
  let escaped := pieces.zipIdx.map fun (piece, i) =>
    (Key.element c.key i, Value.text (Reference.escape piece))
  let base := { c.child c.key c.path with store := Store.ofList escaped }
  (List.range base.store.size).map base.element

/-- What a probe sees. -/
def report (c : Cursor) : Report :=
  let seen (d : Cursor) := (d.key, d.path, d.isPresent)
  { key := c.key, path := c.path, default? := c.default?, isPresent := c.isPresent,
    entries := c.entries, value := c.value, required := c.require, stored := c.store.size,
    element := seen (c.element 1), entry := seen (c.entry ['s', 'u', 'b']) }

end Cursor

end ConfigGraph
