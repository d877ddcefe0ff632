import ConfigGraph.Store.Path
import ConfigGraph.Store.Write

/-!
# Reading trees

The leaves at and below a key put together again. The leaves come back as texts, and no sequence
is longer than the store.
-/

namespace ConfigGraph.Store

/-- The path from a key to a leaf below it. -/
def below? (key full : Text) : Option Text :=
  if key.isEmpty then some full
  else match Key.tail? key full with
    | some ('.' :: rest) => some rest
    | other => other

/-- The tree stored at a key, unless there is nothing at it or below it. -/
def toValue (s : Store) (key : Text) : Option Value :=
  let key := Key.normalize key
  match s.leaf? key with
  | some text => some (.text text)
  | none =>
    match s.entries.filterMap fun (full, text) => (below? key full).map (·, text) with
    | [] => none
    | leaves => some <| leaves.foldl
        (fun v (path, text) => Value.insert (.text text) (Path.split s.size path) v) (.map [])

end ConfigGraph.Store
