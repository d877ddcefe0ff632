import ConfigGraph.Entries
import ConfigGraph.Format.Toml.DateTime
import ConfigGraph.Format.Toml.Tree

/-!
# TOML tables

A document defines its tables piece by piece. How a table came to be decides who may add to it: a
table with a header of its own or between braces is complete, one that only occurs on the way to
another header may get its header later, and one made by dotted keys grows by dotted keys.

The entries of a table keep the order in which they were defined, because the first one decides what
the table is: under one reserved key it gives the date that the whole table stands for.
-/

namespace ConfigGraph.Toml

/-- How a table came to be. -/
inductive Origin where
  /-- It has a header, or stands in an array of tables. -/
  | header
  /-- It occurs on the way to the table of a header. -/
  | implied
  /-- It is made by a dotted key. -/
  | dotted
  /-- It stands between braces. -/
  | inline
  deriving DecidableEq

/-- What stands under a key while the document is read. -/
inductive Node where
  /-- A text, a number, a truth value, a date or a time. -/
  | leaf (t : Toml)
  | array (items : List Node)
  | table (origin : Origin) (entries : List (Text × Node))
  /-- An array of tables, the last one at the end. -/
  | tables (items : List (List (Text × Node)))

/-- Entries in the order in which they were defined. -/
abbrev Nodes := List (Text × Node)

namespace Nodes

/-- The entries with another node under a key that is defined. -/
def replace (es : Nodes) (key : Text) (node : Node) : Nodes :=
  es.map fun (k, n) => if k = key then (k, node) else (k, n)

/-- Changes the table at the end of a path by `f`, which is told how that table came to be. Tables
that are missing are made; of an array of tables the last one is meant. No key passes through a
table between braces, and no dotted key through one with a header. -/
def descend {β : Type} (dotted : Bool) (f : Origin → Nodes → Option (β × Nodes)) :
    (path : List Text) → Origin → Nodes → Option (β × Nodes)
  | [], origin, es => f origin es
  | key :: path, _, es =>
    match Entries.find? es key with
    | none => do
      let origin := if dotted then .dotted else .implied
      let (b, inner) ← descend dotted f path origin []
      return (b, es ++ [(key, .table origin inner)])
    | some (.table origin inner) =>
      if origin == .inline || (dotted && origin == .header) then none
      else do
        let (b, inner) ← descend dotted f path origin inner
        return (b, replace es key (.table origin inner))
    | some (.tables items) =>
      match items.getLast? with
      | none => none
      | some last => do
        let (b, last) ← descend dotted f path .header last
        return (b, replace es key (.tables (items.dropLast ++ [last])))
    | some _ => none

/-- Defines a key with dots. The last part must be new, and the table it goes to must be one that
keys of this kind make. -/
def define (es : Nodes) (path : List Text) (key : Text) (node : Node) : Option Nodes :=
  let add (origin : Origin) (es : Nodes) : Option (Unit × Nodes) :=
    if (origin == .dotted) == path.isEmpty then none
    else if (Entries.find? es key).isSome then none
    else some ((), es ++ [(key, node)])
  (descend true add path .header es).map (·.2)

/-- Takes the table of a header out, with what it holds already. It must be new, or have occurred
only on the way to other headers. -/
def takeTable (es : Nodes) (path : List Text) (key : Text) : Option (Nodes × Nodes) :=
  descend false (fun _ es => match Entries.find? es key with
    | none => some ([], es)
    | some (.table .implied inner) => some (inner, es.filter (·.1 != key))
    | some _ => none) path .header es

/-- Puts the table of a header in its place. -/
def putTable (es : Nodes) (path : List Text) (key : Text) (table : Nodes) : Option Nodes :=
  (descend false (fun _ es => some ((), es ++ [(key, .table .header table)])) path .header es).map
    (·.2)

/-- Begins one more table of an array of tables; only such an array may stand there. -/
def startItem (es : Nodes) (path : List Text) (key : Text) : Option Nodes :=
  (descend false (fun _ es => match Entries.find? es key with
    | none => some ((), es ++ [(key, .tables [])])
    | some (.tables _) => some ((), es)
    | some _ => none) path .header es).map (·.2)

/-- Adds a table to an array of tables. -/
def putItem (es : Nodes) (path : List Text) (key : Text) (table : Nodes) : Option Nodes :=
  (descend false (fun _ es => match Entries.find? es key with
    | some (.tables items) => some ((), replace es key (.tables (items ++ [table])))
    | _ => none) path .header es).map (·.2)

end Nodes

/-- The key of a table that stands for a date or a time. -/
def dateKey : Text := "$__toml_private_datetime".toList

/-- The date that the node under that key gives: a text that stands for one. -/
def Node.date? : Node → Option Toml
  | .leaf (.string t) => (dateTimeOf? t).map .datetime
  | _ => none

mutual

/-- The tree of a node; a table that stands for a date must give one. -/
def Node.tree? : Node → Option Toml
  | .leaf t => some t
  | .array items => (arrayTrees? items).map .array
  | .table _ es => tableTree? es
  | .tables items => (tableTrees? items).map .array

/-- The trees of the items of an array. -/
def arrayTrees? : List Node → Option (List Toml)
  | [] => some []
  | n :: rest => n.tree?.bind fun t => (arrayTrees? rest).map (t :: ·)

/-- The tree of a table inside a document. Where the first entry gives a date, the others do not
count. -/
def tableTree? : List (Text × Node) → Option Toml
  | [] => some (.table [])
  | (k, n) :: rest =>
    if k = dateKey then n.date?
    else n.tree?.bind fun t => (entryTrees? rest).map fun es => .table (Entries.ofList ((k, t) :: es))

/-- The trees of entries. -/
def entryTrees? : List (Text × Node) → Option (List (Text × Toml))
  | [] => some []
  | (k, n) :: rest => n.tree?.bind fun t => (entryTrees? rest).map ((k, t) :: ·)

/-- The trees of the tables of an array. -/
def tableTrees? : List (List (Text × Node)) → Option (List Toml)
  | [] => some []
  | es :: rest => (tableTree? es).bind fun t => (tableTrees? rest).map (t :: ·)

end

end ConfigGraph.Toml
