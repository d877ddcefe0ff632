import ConfigGraph.Proofs.Store.Canonical

/-!
# Trees are no larger than the store

Whatever a key looks like, taking it apart as a path uses up all of it: each segment is written as a
part of its own, which is not empty (`Path.parses_split`), and a number is below the limit that the
path is read with (`Path.Parses.lt_of_mem`). Inserting a leaf fills a sequence up to the number that is
asked for, so that there is an item of that number (`Value.insert_index`), and no further
(`Value.Bounded.insert`). So no sequence in a tree that is read is longer than the store
(`Store.toValue_bounded`).
-/

namespace ConfigGraph

open Number (IntType)

namespace Path

/-- A segment is written like this: a name as it stands, a number below the limit between brackets, as
any numeral that is read as it. -/
inductive Written (limit : Nat) : Segment → Text → Prop where
  | name {n : Text} (hne : n ≠ []) : Written limit (.name n) n
  | index {numeral : Text} {i : Nat} (hclose : ']' ∉ numeral)
      (hread : IntType.usize.read? numeral = some (i : Int)) (hlt : i < limit) :
      Written limit (.index i) ('[' :: numeral ++ [']'])

/-- A text consists of what segments are written like, one behind the other. -/
inductive Reads (limit : Nat) : Text → List Segment → Prop where
  | nil : Reads limit [] []
  | cons {segment : Segment} {front rest : Text} {segments : List Segment}
      (h : Written limit segment front) (hrest : Reads limit rest segments) :
      Reads limit (front ++ rest) (segment :: segments)

/-- A path consists of dots and, in front of and behind each of them, of what segments are written
like. -/
inductive Parses (limit : Nat) : Text → List Segment → Prop where
  | last {s : Text} {segments : List Segment} (h : Reads limit s segments) : Parses limit s segments
  | dot {s rest : Text} {segments more : List Segment} (h : Reads limit s segments)
      (hrest : Parses limit rest more) : Parses limit (s ++ '.' :: rest) (segments ++ more)

variable {limit i : Nat} {s path front : Text} {segment : Segment} {segments : List Segment}

theorem Written.pos (h : Written limit segment front) : 0 < front.length := by
  cases h with
  | name hne => exact List.length_pos_iff.2 hne
  | index => exact Nat.zero_lt_succ _

theorem Reads.length_le (h : Reads limit s segments) : segments.length ≤ s.length := by
  induction h with
  | nil => exact Nat.le_refl 0
  | cons h _ ih =>
    have := h.pos
    rw [List.length_cons, List.length_append]
    omega

theorem Reads.lt_of_mem (h : Reads limit s segments) (hi : .index i ∈ segments) : i < limit := by
  induction h with
  | nil => exact absurd hi List.not_mem_nil
  | cons h _ ih =>
    rcases List.mem_cons.1 hi with rfl | hi
    · cases h with
      | index _ _ hlt => exact hlt
    · exact ih hi

/-- There are no more segments than characters. -/
theorem Parses.length_le (h : Parses limit path segments) : segments.length ≤ path.length := by
  induction h with
  | last h => exact h.length_le
  | dot h _ ih =>
    have := h.length_le
    rw [List.length_append, List.length_append, List.length_cons]
    omega

theorem Parses.lt_of_mem (h : Parses limit path segments) (hi : .index i ∈ segments) :
    i < limit := by
  induction h with
  | last h => exact h.lt_of_mem hi
  | dot h _ ih => exact (List.mem_append.1 hi).elim h.lt_of_mem ih

/-! ## Taking a path apart -/

theorem reads_name (limit : Nat) (hne : s ≠ []) : Reads limit s [.name s] := by
  have hnil : Reads limit [] [] := .nil
  have h := Reads.cons (.name hne) hnil
  rwa [List.append_nil] at h

/-- Each number in brackets uses up its numeral and its brackets, and what is malformed is used up as a
name. -/
theorem reads_brackets (limit : Nat) (s : Text) : Reads limit s (brackets limit s) := by
  fun_induction brackets limit s with
  | case1 => exact .nil
  | case2 inner numeral rest hcut n hread hlt _ ih =>
    obtain ⟨rfl, hclose⟩ := Text.eq_append_of_cutAt? hcut
    have hholds := IntType.holds_of_read? hread
    have hleast : IntType.usize.least = 0 := by decide
    simp only [IntType.holds, hleast, Bool.and_eq_true, decide_eq_true_eq] at hholds
    obtain ⟨i, rfl⟩ := Int.eq_ofNat_of_zero_le hholds.1
    have h := Reads.cons (.index hclose hread (Int.ofNat_lt.1 hlt)) ih
    rwa [List.append_assoc] at h
  | case6 s hne => exact reads_name limit hne
  | _ => exact reads_name limit (List.cons_ne_nil _ _)

theorem reads_part (limit : Nat) (s : Text) : Reads limit s (part limit s) := by
  have hbrackets := reads_brackets limit (s.dropWhile (· != '['))
  have hs := List.takeWhile_append_dropWhile (p := (· != '[')) (l := s)
  rw [part]
  split
  · rename_i hempty
    rw [List.isEmpty_iff.1 hempty, List.nil_append] at hs
    rwa [hs] at hbrackets ⊢
  · rename_i hne
    have h := Reads.cons (.name fun h => hne (List.isEmpty_iff.2 h)) hbrackets
    rwa [hs] at h

/-- Taking a path apart uses up all of it, whatever it looks like. -/
theorem parses_split (limit : Nat) (path : Text) : Parses limit path (split limit path) := by
  have hparts : ∀ pieces : List Text, pieces ≠ [] →
      Parses limit (Text.join ['.'] pieces) (pieces.flatMap (part limit)) := by
    intro pieces hne
    induction pieces with
    | nil => exact absurd rfl hne
    | cons piece pieces ih =>
      cases pieces with
      | nil => simpa [Text.join] using Parses.last (reads_part limit piece)
      | cons next pieces =>
        rw [Text.join, List.intercalate_cons_cons, List.flatMap_cons, List.append_assoc]
        exact .dot (reads_part limit piece) (ih (List.cons_ne_nil _ _))
  have h := hparts _ (List.splitOn_ne_nil '.' path)
  rwa [Text.join, List.intercalate_splitOn] at h

end Path

namespace Value

variable {n : Nat} {v : Value} {p : List Segment} {t : Text}

/-- No sequence in a tree, at whatever depth, is longer than this. -/
def Bounded (n : Nat) : Value → Prop :=
  Each (fun _ => True) (·.length ≤ n)

/-- A sequence gets no longer than a number on the path asks for. -/
theorem Bounded.insert (hp : ∀ i, .index i ∈ p → i < n) (hv : v.Bounded n) :
    (insert (.text t) p v).Bounded n := by
  refine Each.insert trivial (Nat.zero_le n) (fun _ _ _ _ => trivial) (fun vs i f hi hvs => ?_) hv
  have hlt := hp i hi
  rw [List.length_modify, length_padded]
  omega

/-- The item that a path goes on to is there once the sequence has been filled up. -/
theorem insert_index (leaf : Value) (i : Nat) (p : List Segment) (v : Value) :
    ∃ child, (padded i v.items)[i]? = some child ∧
      insert leaf (.index i :: p) v = .seq ((padded i v.items).set i (insert leaf p child)) := by
  have hlt : i < (padded i v.items).length := by
    rw [length_padded]
    omega
  refine ⟨_, List.getElem?_eq_getElem hlt, ?_⟩
  rw [insert, List.modify_eq_set_get _ hlt]
  rfl

end Value

namespace Store

/-- No sequence in a tree that is read from a store is longer than the store has leaves, whatever the
keys of the leaves look like. Every path is used up when it is taken apart, into no more segments than
it has characters, and inserting a leaf always finds the item that its path goes on to. -/
theorem toValue_bounded (s : Store) (key : Text) :
    (∀ v, s.toValue key = some v → v.Bounded s.size) ∧
    (∀ path, Path.Parses s.size path (Path.split s.size path) ∧
      (Path.split s.size path).length ≤ path.length) ∧
    ∀ leaf i p v, ∃ child, (Value.padded i v.items)[i]? = some child ∧
      Value.insert leaf (.index i :: p) v =
        .seq ((Value.padded i v.items).set i (Value.insert leaf p child)) := by
  refine ⟨fun v hv => ?_, fun path => ⟨Path.parses_split s.size path,
    (Path.parses_split s.size path).length_le⟩, Value.insert_index⟩
  have hempty : (Value.map []).Bounded s.size := Value.each_map_iff.2 ⟨trivial, by simp⟩
  unfold toValue at hv
  dsimp only at hv
  split at hv
  · cases hv
    trivial
  · split at hv
    · cases hv
    · cases hv
      exact List.foldlRecOn _ _ hempty fun w hw e _ =>
        hw.insert fun i hi => (Path.parses_split s.size e.1).lt_of_mem hi

/-- Leaves whose keys have a sign, a zero in front, a bracket too many, a bracket that is not closed and
a number that is too large. -/
def oddKeys : List (Text × Value) :=
  [(['a', '[', '+', '2', ']'], .text ['x']), (['a', '[', '0', '1', ']', ']'], .text ['y']),
    (['b', '[', '1'], .null), (['b', '[', '9', ']', '[', '0', ']'], .text ['z'])]

/-- Two of the numbers are read, and the sequence has an item that no key asks for. -/
theorem toValue_bounded_oddKeys : ∃ v, (ofList oddKeys).toValue [] = some v ∧
    v = .map [(['a'], .seq [.null, .map [([']'], .text ['y'])], .text ['x']]),
      (['b'], .map [(['[', '1'], .text []), (['[', '9', ']', '[', '0', ']'], .text ['z'])])] ∧
    v.Bounded 4 := by
  have hhas : (ofList oddKeys).has [] = true := by decide
  have hleaves : (ofList oddKeys).leavesAt [] =
      [([.name ['a'], .index 2], ['x']), ([.name ['a'], .index 1, .name [']']], ['y']),
        ([.name ['b'], .name ['[', '1']], []),
        ([.name ['b'], .name ['[', '9', ']', '[', '0', ']']], ['z'])] := by
    decide +kernel
  have hread := toValue_eq_insertAll (Leafy.ofList oddKeys) hhas
  have hbounded := (toValue_bounded (ofList oddKeys) []).1 _ hread
  have hnormalize : Key.normalize [] = [] := rfl
  rw [hnormalize, hleaves] at hread hbounded
  exact ⟨_, hread, rfl, hbounded⟩

end Store

end ConfigGraph
