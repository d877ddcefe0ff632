import ConfigGraph.Text.Utf8

/-!
# File trees

A directory with files and directories in it: how they get there, and what is found at a path that
starts there. A path may go up with `..`, but what lies above the directory is not known, so no file
is made or found there.
-/

namespace ConfigGraph

/-- A file with its bytes, or a directory with named trees. -/
inductive FileTree where
  | file (bytes : List UInt8)
  | dir (entries : List (Text × FileTree))

namespace FileTree

/-- What looking up a path gives. -/
inductive Lookup where
  | content (bytes : List UInt8)
  | missing
  /-- There is something, but no file to read: a directory, or a file on the way. -/
  | unreadable

/-- The entries of a directory. -/
def entries : FileTree → List (Text × FileTree)
  | dir es => es
  | file _ => []

/-- The entry of a name. -/
def child? (es : List (Text × FileTree)) (name : Text) : Option FileTree :=
  (es.find? (·.1 == name)).map (·.2)

/-- The parts of a path that name something or go up. -/
def parts (path : Text) : List Text :=
  (List.splitOn '/' path).filter fun part => !part.isEmpty && part != ['.']

/-! ## Making files -/

/-- Changes what is found at the end of a trail of names; directories on the way are made. -/
def alter (f : Option FileTree → FileTree) : (trail : List Text) → Option FileTree → FileTree
  | [], t => f t
  | name :: trail, t =>
    let es := (t.map entries).getD []
    dir ((name, alter f trail (child? es name)) :: es.filter (·.1 != name))

/-- Follows the parts of a path from the directory at the end of a trail on, and makes the
directories that are missing. Gives the trail of the last one, unless the path leaves the tree. -/
def makeDirs : (parts trail : List Text) → FileTree → FileTree × Option (List Text)
  | [], trail, t => (t, some trail)
  | part :: rest, trail, t =>
    if part == ['.', '.'] then
      if trail.isEmpty then (t, none) else makeDirs rest trail.dropLast t
    else
      let trail := trail ++ [part]
      makeDirs rest trail (alter (·.getD (dir [])) trail (some t))

/-- The tree with a directory at a path. What is there already stays. -/
def addDir (path : Text) (t : FileTree) : FileTree :=
  (makeDirs (parts path) [] t).1

/-- The tree with a file at a path, and the directories that lead there. -/
def addFile (path : Text) (bytes : List UInt8) (t : FileTree) : FileTree :=
  let ps := parts path
  match makeDirs ps.dropLast [] t with
  | (t, some trail) => alter (fun _ => file bytes) (trail ++ ps.getLast?.toList) (some t)
  | (t, none) => t

/-! ## Looking up -/

/-- Whether a part of a path names nothing by itself. -/
def isStep (part : Text) : Bool :=
  part.isEmpty || part == ['.'] || part == ['.', '.']

/-- The greatest number of bytes of a name. -/
def maxName : Nat := 255

/-- Whether no file can have this name. -/
def isTooLong (name : Text) : Bool :=
  maxName < (Text.toUtf8 name).length

/-- What is found above the directory: no file. -/
def outside : (parts : List Text) → Lookup
  | [] => .unreadable
  | part :: rest =>
    if isStep part then outside rest
    else if isTooLong part then .unreadable
    else .missing

/-- What is found from a directory on, where `up` holds the directories around it. -/
def walk (up : List (List (Text × FileTree))) (es : List (Text × FileTree)) :
    (parts : List Text) → Lookup
  | [] => .unreadable
  | part :: rest =>
    if part.isEmpty || part == ['.'] then walk up es rest
    else if part == ['.', '.'] then
      match up with
      | [] => outside rest
      | outer :: up => walk up outer rest
    else if isTooLong part then .unreadable
    else
      match child? es part with
      | none => .missing
      | some (file bytes) => if rest.isEmpty then .content bytes else .unreadable
      | some (dir inner) => walk (es :: up) inner rest

/-- The greatest number of bytes of a path. -/
def maxPath : Nat := 4095

/-- What is found at a path. -/
def lookup (t : FileTree) (path : Text) : Lookup :=
  if path.contains '\x00' || maxPath < (Text.toUtf8 path).length then .unreadable
  else
    match path with
    | [] => .missing
    | '/' :: rest => outside (List.splitOn '/' rest)
    | _ => walk [] t.entries (List.splitOn '/' path)

/-- What follows the last dot in the name of a file, unless the name starts with that dot. -/
def extension (path : Text) : Text :=
  let name := (parts path).getLast?.getD []
  let ext := (name.reverse.takeWhile (· != '.')).reverse
  if name.length ≤ ext.length + 1 then [] else ext

end FileTree

end ConfigGraph
