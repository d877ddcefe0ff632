import ConfigGraph.Proofs.Binding.Reads

/-!
# The store below a key

The leaves whose keys continue a key after a dot make up a store of their own (`Store.under`), under
what stands behind that dot. There a key has the same text, there is something at or below it, and the
same names stand below it, as at the key behind the dot (`get?_under`, `has_under`, `group_under`).
-/

namespace ConfigGraph

open Key (Covers)

theorem Text.before_append_left (s t u : Text) : before (s ++ t) (s ++ u) = before t u := by
  induction s with
  | nil => rfl
  | cons a s ih => simp [before, ih]

namespace Key

/-- What a key continues another one with after a dot. -/
def entry? (p key : Text) : Option Text :=
  match p.isPrefixOf? key with
  | some ('.' :: rest) => some rest
  | _ => none

theorem entry?_eq_some_iff {p key rest : Text} :
    entry? p key = some rest ↔ key = p ++ '.' :: rest := by
  unfold entry?
  rw [eq_comm (a := key), ← List.isPrefixOf?_eq_some_iff_append_eq]
  split
  · rename_i r h
    simp [h]
  · rename_i h
    exact iff_of_false (fun h => by cases h) (h rest)

/-- What a key continues another one with after a dot, unless nothing is there or the mark of the
root. -/
def under? (p key : Text) : Option Text :=
  match entry? p key with
  | some (c :: rest) => if c = '$' then none else some (c :: rest)
  | _ => none

theorem under?_eq_some_iff {p key q : Text} :
    under? p key = some q ↔ Unmarked q ∧ key = p ++ '.' :: q := by
  unfold under?
  rw [← entry?_eq_some_iff]
  constructor
  · intro h
    split at h
    · rename_i c rest hentry
      split at h
      · cases h
      · rename_i hc
        cases h
        exact ⟨⟨c, rest, rfl, hc⟩, hentry⟩
    · cases h
  · rintro ⟨⟨c, rest, rfl, hc⟩, h⟩
    simp only [h, if_neg hc]

/-- Behind a key without a mark any key is without a mark. -/
theorem Unmarked.append {p : Text} (hp : Unmarked p) (k : Text) : Unmarked (p ++ '.' :: k) :=
  hp.covers (.inr ⟨k, .inl rfl⟩)

theorem Unmarked.join {k : Text} (hk : Unmarked k) (n : Text) : Unmarked (Key.join k n) :=
  hk.covers ((scope_join k n).covers hk.ne_nil)

theorem join_join (a b n : Text) : join (join a b) n = join a (join b n) := by
  cases a <;> cases b <;> cases n <;> simp [join]

theorem element_dot (p k : Text) (i : Nat) : element (p ++ '.' :: k) i = p ++ '.' :: element k i := by
  simp only [element, List.append_assoc, List.cons_append]

theorem covers_dot_iff {p k q : Text} : Covers (p ++ '.' :: k) (p ++ '.' :: q) ↔ Covers k q := by
  rw [covers_append_iff]
  exact covers_append_iff (p := ['.'])

end Key

namespace Store

variable {s : Store} {p k q t : Text}

theorem group_eq (hk : Key.Unmarked k) (s : Store) : s.group k =
    ((s.keys.filterMap (Key.entry? k)).map fun rest => rest.takeWhile (· != '.')).foldl
      (fun names name => if names.contains name then names else names ++ [name]) [] := by
  rw [group, hk.normalize]
  simp only [List.isEmpty_eq_false_iff.2 hk.ne_nil, Bool.false_eq_true, if_false]
  rfl

/-- The leaves whose keys continue a key after a dot, under what they continue it with. Those that
continue it with nothing or with the mark of the root are left out. -/
def under (s : Store) (p : Text) : Store where
  entries := s.entries.filterMap fun e => (Key.under? p e.1).map (·, e.2)
  sorted := by
    refine List.Pairwise.filterMap _ (fun a a' h b hb b' hb' => ?_) s.sorted
    obtain ⟨q, hq, rfl⟩ := Option.map_eq_some_iff.1 hb
    obtain ⟨q', hq', rfl⟩ := Option.map_eq_some_iff.1 hb'
    rw [(Key.under?_eq_some_iff.1 hq).2, (Key.under?_eq_some_iff.1 hq').2,
      Text.before_append_left] at h
    simpa [Text.before] using h

theorem leaf?_under : (s.under p).leaf? q = some t ↔
    Key.Unmarked q ∧ s.leaf? (p ++ '.' :: q) = some t := by
  rw [← mem_entries_iff, ← mem_entries_iff]
  simp only [under, List.mem_filterMap, Option.map_eq_some_iff, Key.under?_eq_some_iff,
    Prod.mk.injEq, Prod.exists]
  constructor
  · rintro ⟨_, _, he, _, ⟨hq, rfl⟩, rfl, rfl⟩
    exact ⟨hq, he⟩
  · rintro ⟨hq, he⟩
    exact ⟨_, _, he, _, ⟨hq, rfl⟩, rfl, rfl⟩

theorem keys_under (s : Store) (p : Text) : (s.under p).keys = s.keys.filterMap (Key.under? p) := by
  rw [keys, keys, under, List.map_filterMap, List.filterMap_map]
  refine congrArg (fun f => List.filterMap f s.entries) (funext fun e => ?_)
  cases h : Key.under? p e.1 <;> simp [h]

/-- The store below a key is made of the leaves that continue it, and of nothing else. -/
theorem under_congr {s' : Store}
    (h : ∀ q, Key.Unmarked q → s'.leaf? (p ++ '.' :: q) = s.leaf? (p ++ '.' :: q)) :
    s'.under p = s.under p := by
  refine ext_leaf? fun q => Option.ext fun t => ?_
  rw [leaf?_under, leaf?_under]
  exact and_congr_right fun hq => by rw [h q hq]

section

variable (hp : Key.Unmarked p) (hk : Key.Unmarked k)

include hp hk

theorem get?_under (s : Store) : (s.under p).get? k = s.get? (p ++ '.' :: k) := by
  rw [get?, get?, hk.normalize, (hp.append k).normalize]
  refine Option.ext fun t => ?_
  rw [leaf?_under, and_iff_right hk]

theorem has_under (s : Store) : (s.under p).has k = s.has (p ++ '.' :: k) := by
  rw [Bool.eq_iff_iff, Cursor.has_iff_of_unmarked hk, Cursor.has_iff_of_unmarked (hp.append k)]
  simp only [keys_under, List.mem_filterMap, Key.under?_eq_some_iff]
  constructor
  · rintro ⟨q, ⟨_, hm, -, rfl⟩, hc⟩
    exact ⟨_, hm, Key.covers_dot_iff.2 hc⟩
  · rintro ⟨_, hm, hc⟩
    obtain ⟨rest, rfl, -⟩ := hc.exists_append
    rw [List.append_assoc, List.cons_append] at hc hm
    have hc := Key.covers_dot_iff.1 hc
    exact ⟨_, ⟨_, hm, hk.covers hc, rfl⟩, hc⟩

theorem group_under (s : Store) : (s.under p).group k = s.group (p ++ '.' :: k) := by
  have hrests : (s.under p).keys.filterMap (Key.entry? k) =
      s.keys.filterMap (Key.entry? (p ++ '.' :: k)) := by
    rw [keys_under, List.filterMap_filterMap]
    refine congrArg (fun f => s.keys.filterMap f) (funext fun q => Option.ext fun rest => ?_)
    simp only [Option.bind_eq_some_iff, Key.under?_eq_some_iff, Key.entry?_eq_some_iff]
    constructor
    · rintro ⟨_, ⟨-, rfl⟩, rfl⟩
      rw [List.append_assoc, List.cons_append]
    · rintro rfl
      refine ⟨k ++ '.' :: rest, ⟨hk.append rest, ?_⟩, rfl⟩
      rw [List.append_assoc, List.cons_append]
  rw [group_eq hk, group_eq (hp.append k), hrests]

end

end Store

end ConfigGraph
