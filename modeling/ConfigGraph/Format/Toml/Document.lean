import ConfigGraph.Format.Toml.Quoted
import ConfigGraph.Format.Toml.Scalar
import ConfigGraph.Format.Toml.Table

/-!
# TOML documents

A document is read line by line: keys with values, and headers that say which table the keys after
them belong to.
-/

namespace ConfigGraph.Toml

/-! ## Keys and values -/

/-- The characters of keys without quotes. -/
def isBare (c : Char) : Bool :=
  let n := c.toNat
  Text.isDigit c || (65 ≤ n && n ≤ 90) || (97 ≤ n && n ≤ 122) || c == '-' || c == '_'

/-- Reads one part of a key, with the blanks around it. -/
def keyPart? (s : Text) : Option (Text × Text) := do
  let s := skipSpace s
  let (key, rest) ← match s with
    | '"' :: rest => basic? rest
    | '\'' :: rest => literal? rest
    | _ =>
      let key := s.takeWhile isBare
      if key.isEmpty then none else some (key, s.dropWhile isBare)
  return (key, skipSpace rest)

/-- The greatest number of arrays and tables around a value, and of parts of a key. -/
def maxDepth : Nat := 79

/-- Reads a key: the parts before the last dot, and the last part. -/
def key? (s : Text) : Option ((List Text × Text) × Text) := do
  let (parts, rest) ← Reader.separated keyPart? '.' s
  let last ← parts.getLast?
  if maxDepth < parts.length then none else some ((parts.dropLast, last), rest)

/-- The text without blanks, line ends and comments at its front. -/
def skipLines : (comment : Bool) → Text → Text
  | _, '\n' :: rest => skipLines false rest
  | _, '\r' :: '\n' :: rest => skipLines false rest
  | true, c :: rest => if isPlain c then skipLines true rest else c :: rest
  | false, c :: rest =>
    if isSpace c then skipLines false rest
    else if c = '#' then skipLines true rest
    else c :: rest
  | _, [] => []

/-- Reads a key, an equals sign and a value. -/
def definition? (value : Reader Node) (s : Text) :
    Option ((List Text × Text × Node) × Text) := do
  let ((path, key), rest) ← key? s
  match rest with
  | '=' :: rest =>
    let (v, rest) ← value (skipSpace rest)
    return ((path, key, v), rest)
  | _ => none

/-- The table of the definitions between braces. -/
def inlineTable? (definitions : List (List Text × Text × Node)) : Option Node :=
  (definitions.foldlM (fun es (path, key, n) => Nodes.define es path key n) []).map (.table .inline)

/-- Reads a date, a time or a number. -/
def dateOrNumber? : Reader Node := fun s =>
  match dateTime s with
  | .done t rest => some (.leaf (.datetime t), rest)
  | .malformed => none
  | .other => (number? s).map fun (t, rest) => (.leaf t, rest)

/-- Reads a value that holds arrays and tables up to a depth. -/
def value? (depth : Nat) (s : Text) : Option (Node × Text) :=
  match s with
  | [] => none
  | c :: rest =>
    if c = '[' then
      match depth with
      | 0 => none
      | depth + 1 =>
        (Reader.list (value? depth) (skipLines false) ']' true rest).map fun (items, rest) =>
          (.array items, rest)
    else if c = '{' then
      match depth with
      | 0 => none
      | depth + 1 => do
        let (ds, rest) ← Reader.list (definition? (value? depth)) skipSpace '}' false rest
        return (← inlineTable? ds, rest)
    else if c = '"' || c = '\'' then (quoted? s).map fun (t, rest) => (.leaf (.string t), rest)
    else if Text.isDigit c || c = '+' || c = '-' then dateOrNumber? s
    else (word? s).map fun (t, rest) => (.leaf t, rest)

/-! ## Lines -/

/-- The text after the end of the line, before which only blanks and a comment may stand. -/
def lineEnd? (s : Text) : Option Text :=
  let s := skipSpace s
  let s := match s with
    | '#' :: rest => rest.dropWhile isPlain
    | _ => s
  if s.isEmpty then some [] else newline? s

/-- What has been read of a document: the tables put in place, and the one that is being filled. -/
structure Draft where
  root : Nodes
  /-- The way to the open table, unless that is the root table. -/
  header : Option (List Text × Text)
  /-- Whether the open table is an item of an array of tables. -/
  isItem : Bool
  table : Nodes

namespace Draft

/-- The document before its first line. -/
def start : Draft where
  root := []
  header := none
  isItem := false
  table := []

/-- The tables, with the open one put in its place. -/
def close (d : Draft) : Option Nodes :=
  match d.header with
  | none => some d.table
  | some (path, key) =>
    if d.isItem then d.root.putItem path key d.table else d.root.putTable path key d.table

/-- Opens the table of a header. -/
def openTable (d : Draft) (path : List Text) (key : Text) : Option Draft := do
  let (table, root) ← (← d.close).takeTable path key
  return { root, header := some (path, key), isItem := false, table }

/-- Opens one more table of an array of tables. -/
def openItem (d : Draft) (path : List Text) (key : Text) : Option Draft := do
  let root ← (← d.close).startItem path key
  return { root, header := some (path, key), isItem := true, table := [] }

/-- Defines a key in the open table. -/
def define (d : Draft) (path : List Text) (key : Text) (n : Node) : Option Draft :=
  (d.table.define path key n).map fun table => { d with table }

end Draft

/-- Reads a line that is neither empty nor a comment. -/
def line? (d : Draft) (s : Text) : Option (Draft × Text) := do
  match s with
  | '[' :: '[' :: rest =>
    let ((path, key), rest) ← key? rest
    let rest ← Text.afterWord? "]]" rest
    return (← d.openItem path key, ← lineEnd? rest)
  | '[' :: rest =>
    let ((path, key), rest) ← key? rest
    let rest ← Text.afterWord? "]" rest
    return (← d.openTable path key, ← lineEnd? rest)
  | _ =>
    let ((path, key, n), rest) ← definition? (value? maxDepth) s
    return (← d.define path key n, ← lineEnd? rest)

/-- Reads the lines up to the end of the text. -/
def lines (d : Draft) (s : Text) : Option Draft :=
  match skipSpace s with
  | [] => some d
  | c :: rest =>
    let next :=
      if c = '#' || c = '\n' || c = '\r' then (lineEnd? (c :: rest)).map (d, ·)
      else line? d (c :: rest)
    match next with
    | none => none
    | some (d, after) => if after.length < s.length then lines d after else none
termination_by s.length

/-- The tree of a TOML document. A byte order mark at its front is left out. The root table is a
table whatever its first key is. -/
def decode? (s : Text) : Option Toml := do
  let s := match s with
    | '\uFEFF' :: rest => rest
    | _ => s
  let es ← (← lines Draft.start s).close
  return .table (Entries.ofList (← entryTrees? es))

end ConfigGraph.Toml
