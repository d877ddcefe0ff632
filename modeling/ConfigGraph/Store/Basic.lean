import ConfigGraph.Entries
import ConfigGraph.Store.Key

/-!
# The store

Leaf keys with their texts, in the order of the keys. A leaf is written by `put`, which drops every
leaf above and below its key, so that no key continues another one after a dot or a bracket.
-/

namespace ConfigGraph

/-- Leaf keys and their texts, in key order. -/
structure Store where
  entries : Entries Text
  sorted : entries.Sorted

namespace Store

/-- The store without leaves. -/
def empty : Store where
  entries := []
  sorted := List.Pairwise.nil

/-- The text stored under exactly this key. -/
def leaf? (s : Store) (key : Text) : Option Text :=
  s.entries.find? key

/-- The text stored for a key. -/
def get? (s : Store) (key : Text) : Option Text :=
  s.leaf? (Key.normalize key)

/-- The leaf keys, in order. -/
def keys (s : Store) : List Text :=
  s.entries.map (·.1)

/-- The number of leaves. -/
def size (s : Store) : Nat :=
  s.entries.length

/-- The store without the leaf of exactly this key. -/
def erase (s : Store) (key : Text) : Store where
  entries := s.entries.filter (·.1 != key)
  sorted := Entries.sorted_filter s.sorted _

/-- Writes one leaf; what lay above or below its key goes. The root key holds no text. -/
def put (s : Store) (key text : Text) : Store where
  entries :=
    if key.isEmpty then s.entries
    else Entries.put key text (s.entries.filter fun e => !Key.related key e.1)
  sorted := by
    split
    · exact s.sorted
    · exact Entries.sorted_put (Entries.sorted_filter s.sorted _) key text

/-- Whether something is stored at the key or below it. The keys that start with the key follow it
without a gap, so the walk ends at the first that does not. -/
def has (s : Store) (key : Text) : Bool :=
  let key := Key.normalize key
  if key.isEmpty then !s.entries.isEmpty
  else
    (s.leaf? key).isSome ||
      (((s.keys.dropWhile fun k => !Text.before key k).takeWhile key.isPrefixOf).any
        (Key.isBelow key))

/-- The distinct names that stand first below a key, as the leaves are met. Only a dot ends a
name. -/
def group (s : Store) (key : Text) : List Text :=
  let key := Key.normalize key
  let rests := s.keys.filterMap fun k =>
    if key.isEmpty then some k
    else match key.isPrefixOf? k with
      | some ('.' :: rest) => some rest
      | _ => none
  (rests.map fun rest => rest.takeWhile (· != '.')).foldl
    (fun names name => if names.contains name then names else names ++ [name]) []

end Store

end ConfigGraph
