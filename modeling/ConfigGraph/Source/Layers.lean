import ConfigGraph.Format.Registry
import ConfigGraph.Log
import ConfigGraph.Source.FileTree
import ConfigGraph.Text.Lowercase

/-!
# Layered sources

Configuration is built from files, environment variables and single values, one source after the
other; what a later source sets replaces what an earlier one has set.
-/

namespace ConfigGraph

/-- Which environment variables are read: those that start with a lead and a separator. The
separator stands between the parts of a key, too. -/
structure Variables where
  lead : Text
  separator : Text
  separator_ne_nil : separator ≠ []

/-- Something that contributes to the store. -/
inductive Source where
  | file (path : Text) (required : Bool)
  | environment (which : Variables)
  | value (key : Text) (v : Value)

/-- What sources read from. -/
structure Surroundings where
  files : FileTree
  /-- The environment variables, in the order in which they are listed. -/
  environment : List (Text × Text)
  formats : Registry

/-- A file that may be missing was missing. -/
structure Skipped where
  path : Text

def Skipped.log (s : Skipped) : LogLine :=
  ⟨.warn, "optional config file not found, skipping", [("path", s.path.str)]⟩

namespace Variables

/-- The variables that start with a lead and a separator, or what is wrong with the separator. -/
def ofSeparator (lead separator : Text) : Except String Variables :=
  if h : separator ≠ [] then .ok ⟨lead, separator, h⟩ else .error "separator must not be empty"

/-- The key of a variable, unless it is not read. Its parts are lowered one by one. -/
def key? (v : Variables) (name : Text) : Option Text :=
  match (v.lead ++ v.separator).isPrefixOf? name with
  | none | some [] => none
  | some rest => some (Text.join ['.'] ((Text.splitOn v.separator rest).map Text.lower))

/-- Stores the variables that are read. -/
def load (v : Variables) (environment : List (Text × Text)) (s : Store) : Store :=
  environment.foldl (fun s (name, text) =>
    match v.key? name with
    | some key => s.set key (.text text)
    | none => s) s

end Variables

namespace Store

/-- Reads a file and stores the tree in it at the root. Its extension chooses the decoder. -/
def load (s : Store) (files : FileTree) (formats : Registry) (path : Text) :
    Except ConfigError Store :=
  match files.lookup path with
  | .missing => .error (.fileNotFound path)
  | .unreadable => .error (.unreadable path)
  | .content bytes => s.read formats (FileTree.extension path) bytes

end Store

namespace Source

/-- Stores what a source contributes; a file that may be missing is skipped when it is. -/
def load (around : Surroundings) (s : Store) : Source → Except ConfigError (Store × List Skipped)
  | file path required =>
    match s.load around.files around.formats path with
    | .error (.fileNotFound p) =>
      if required then .error (.fileNotFound p) else .ok (s, [⟨p⟩])
    | .error e => .error e
    | .ok s => .ok (s, [])
  | environment which => .ok (which.load around.environment s, [])
  | value key v => .ok (s.set key v, [])

/-- Stores what the sources contribute, up to the first that fails. -/
def loadAll (around : Surroundings) (s : Store) :
    List Source → List Skipped × Except ConfigError Store
  | [] => ([], .ok s)
  | source :: rest =>
    match source.load around s with
    | .error e => ([], .error e)
    | .ok (s, skipped) =>
      let (more, result) := loadAll around s rest
      (skipped ++ more, result)

/-- Builds a store from sources, and tells which files were skipped. -/
def build (around : Surroundings) (sources : List Source) :
    List Skipped × Except ConfigError Store :=
  loadAll around Store.empty sources

end Source

end ConfigGraph
