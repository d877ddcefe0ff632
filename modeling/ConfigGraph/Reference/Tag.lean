import ConfigGraph.Reference.Scan
import ConfigGraph.Text.Blank

/-!
# Tags

A tag is one whole reference: a key, and after `:=` an optional default.
-/

namespace ConfigGraph

/-- A reference taken apart. -/
structure Tag where
  key : Text
  default? : Option Text

namespace Tag

/-- Whether there is a default that is not empty. -/
def hasDefault (tag : Tag) : Bool :=
  tag.default?.any (!·.isEmpty)

/-- The text inside the braces of a tag, which must be the outermost characters. -/
def inner? (s : Text) : Option Text :=
  match s with
  | '$' :: '{' :: rest => if rest.getLast? = some '}' then some rest.dropLast else none
  | _ => none

/-- The key and the default that the text inside the braces names. -/
def ofInner (inner : Text) : Tag :=
  match Text.cut? [':', '='] inner with
  | some (key, default) => ⟨Text.trim key, some default⟩
  | none => ⟨Text.trim inner, none⟩

/-- Reads a text that is one balanced reference from its first character to its last. -/
def parse (s : Text) : Except ConfigError Tag :=
  match inner? s with
  | none => .error (.invalidTag s)
  | some inner =>
    match Reference.find? s with
    | .error e => .error e
    | .ok span =>
      if span = some (0, s.length - 1) then .ok (ofInner inner) else .error (.invalidTag s)

/-- The text of a tag. -/
def print (tag : Tag) : Text :=
  ['$', '{'] ++ tag.key ++
    (match tag.default? with | some d => [':', '='] ++ d | none => []) ++ ['}']

/-! ## The default is a part of the tag -/

/-- The length of the default. -/
def size (tag : Tag) : Nat :=
  (tag.default?.getD []).length

theorem length_inner {s inner : Text} (h : inner? s = some inner) :
    inner.length + 3 = s.length := by
  unfold inner? at h
  split at h
  · rename_i rest
    split at h
    · rename_i hl
      simp only [Option.some.injEq] at h
      subst h
      cases rest with
      | nil => simp at hl
      | cons c rest => simp
    · simp at h
  · simp at h

theorem size_ofInner (inner : Text) : (ofInner inner).size ≤ inner.length := by
  unfold ofInner
  split
  · rename_i key d h
    have := Text.length_of_cut? h
    simp only [size, Option.getD_some]
    omega
  · simp [size]

theorem size_lt_of_parse {s : Text} {tag : Tag} (h : parse s = .ok tag) :
    tag.size < s.length := by
  unfold parse at h
  split at h
  · simp at h
  · rename_i inner hi
    split at h
    · simp at h
    · split at h
      · simp only [Except.ok.injEq] at h
        subst h
        have := length_inner hi
        have := size_ofInner inner
        omega
      · simp at h

end Tag

end ConfigGraph
