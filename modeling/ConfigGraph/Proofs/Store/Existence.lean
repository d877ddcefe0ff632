import ConfigGraph.Proofs.Store.Leaf
import ConfigGraph.Proofs.Store.Path

/-!
# What there is below a key

The walk over the keys that start with a key meets every key below it, for these stand together
(`has_iff`), and where it meets one there is a tree to be read (`isSome_toValue_iff`). The names below
a key are each listed once (`mem_group_iff`, `nodup_group`). So all three agree with a plain look at the
stored keys (`existence_agrees`).
-/

namespace ConfigGraph.Store

open Key (Below Covers Scope)

theorem sorted_keys (s : Store) : s.keys.Pairwise fun a b => Text.before a b = true :=
  List.pairwise_map.2 s.sorted

/-- The keys that the walk meets are those that start with the key and are longer. -/
theorem walk_eq (s : Store) (key : Text) :
    (s.keys.dropWhile fun k => !Text.before key k).takeWhile key.isPrefixOf =
      (s.keys.filter (Text.before key)).filter key.isPrefixOf := by
  rw [dropWhile_eq_filter, takeWhile_eq_filter]
  · have hs := s.sorted_keys.filter (Text.before key)
    refine List.Pairwise.imp_of_mem (fun {a b} ha _ hab => ?_) hs
    intro hb
    rw [List.isPrefixOf_iff_prefix] at hb ⊢
    exact Text.prefix_of_between (List.mem_filter.1 ha).2 hab hb
  · exact s.sorted_keys.imp fun hab hka => Text.before_trans hka hab

theorem has_iff {s : Store} {key : Text} :
    s.has key = true ↔ ∃ q ∈ s.keys, Scope (Key.normalize key) q := by
  by_cases hk : Key.normalize key = []
  · simp only [has, hk, List.isEmpty_nil, if_true, Scope, true_or, and_true, keys]
    cases s.entries <;> simp
  · have hbelow : ∀ q, Below (Key.normalize key) q →
        Text.before (Key.normalize key) q = true ∧ (Key.normalize key).isPrefixOf q = true := by
      intro q hq
      obtain ⟨c, rest, -, rfl⟩ := Key.below_iff.1 hq
      exact ⟨Text.before_append _ (List.cons_ne_nil _ _),
        List.isPrefixOf_iff_prefix.2 (List.prefix_append _ _)⟩
    simp only [has, List.isEmpty_eq_false_iff.2 hk, Bool.false_eq_true, if_false, walk_eq,
      Bool.or_eq_true, List.any_eq_true, Key.isBelow_iff, Option.isSome_iff_exists, ← mem_keys_iff,
      List.mem_filter, Scope, hk, false_or]
    constructor
    · rintro (h | ⟨q, ⟨⟨hq, -⟩, -⟩, hb⟩)
      · exact ⟨_, h, .refl _⟩
      · exact ⟨q, hq, .inr hb⟩
    · rintro ⟨q, hq, rfl | hb⟩
      · exact .inl hq
      · exact .inr ⟨q, ⟨⟨hq, (hbelow q hb).1⟩, (hbelow q hb).2⟩, hb⟩

/-- A tree can be read where there is something. -/
theorem isSome_toValue_iff {s : Store} {key : Text} :
    (s.toValue key).isSome = true ↔ s.has key = true := by
  rw [has_iff]
  cases hl : s.leaf? (Key.normalize key) with
  | some t =>
    simp only [toValue, hl, Option.isSome_some, true_iff]
    exact ⟨_, mem_keys_iff.2 ⟨t, hl⟩, .inr (.refl _)⟩
  | none =>
    have hne : ∀ q ∈ s.keys, q ≠ Key.normalize key := by
      rintro q hq rfl
      obtain ⟨t, ht⟩ := mem_keys_iff.1 hq
      rw [hl] at ht
      cases ht
    have htree : (s.toValue key).isSome = true ↔
        ∃ q ∈ s.keys, (below? (Key.normalize key) q).isSome = true := by
      simp only [toValue, hl, keys]
      split
      · rename_i hnil
        simpa [List.filterMap_eq_nil_iff] using hnil
      · rename_i hnil
        obtain ⟨⟨path, t⟩, he⟩ := List.exists_mem_of_ne_nil _ hnil
        obtain ⟨e, he, hp⟩ := List.mem_filterMap.1 he
        obtain ⟨path, hb, -⟩ := Option.map_eq_some_iff.1 hp
        exact iff_of_true rfl ⟨e.1, List.mem_map_of_mem he, hb ▸ rfl⟩
    rw [htree]
    refine exists_congr fun q => and_congr_right fun hq => Path.isSome_below?_iff.trans ?_
    simp only [Scope, Covers, hne q hq, false_or]

/-! ## Names -/

section

variable {α : Type} [BEq α] [LawfulBEq α]

/-- Adds what is new, in order. -/
theorem mem_foldl_new {l acc : List α} {a : α} :
    a ∈ l.foldl (fun acc b => if acc.contains b then acc else acc ++ [b]) acc ↔ a ∈ acc ∨ a ∈ l := by
  induction l generalizing acc with
  | nil => simp
  | cons b l ih =>
    rw [List.foldl_cons, ih, List.mem_cons]
    by_cases hb : b ∈ acc
    · rw [if_pos (List.contains_iff_mem.2 hb)]
      exact ⟨Or.imp_right .inr, fun h => h.elim .inl fun h => h.elim (fun e => .inl (e ▸ hb)) .inr⟩
    · rw [if_neg fun h => hb (List.contains_iff_mem.1 h), List.mem_append, List.mem_singleton, or_assoc]

theorem nodup_foldl_new {l acc : List α} (hacc : acc.Nodup) :
    (l.foldl (fun acc b => if acc.contains b then acc else acc ++ [b]) acc).Nodup := by
  induction l generalizing acc with
  | nil => exact hacc
  | cons b l ih =>
    rw [List.foldl_cons]
    by_cases hb : b ∈ acc
    · rw [if_pos (List.contains_iff_mem.2 hb)]
      exact ih hacc
    · rw [if_neg fun h => hb (List.contains_iff_mem.1 h)]
      refine ih (List.nodup_append.2 ⟨hacc, List.pairwise_singleton _ b, fun a ha c hc e => hb ?_⟩)
      rw [← List.mem_singleton.1 hc, ← e]
      exact ha

end

/-- A name is listed when a stored key continues the key with it, up to a dot or the end. -/
theorem mem_group_iff {s : Store} {key n : Text} :
    n ∈ s.group key ↔ ∃ rest, rest.takeWhile (· != '.') = n ∧
      (if Key.normalize key = [] then rest else Key.normalize key ++ '.' :: rest) ∈ s.keys := by
  simp only [group, mem_foldl_new, List.not_mem_nil, false_or, List.mem_map, List.mem_filterMap,
    List.isEmpty_iff]
  by_cases hk : Key.normalize key = []
  · simp only [hk, if_true]
    constructor
    · rintro ⟨rest, ⟨q, hq, h⟩, hn⟩
      cases h
      exact ⟨rest, hn, hq⟩
    · rintro ⟨rest, hn, hq⟩
      exact ⟨rest, ⟨rest, hq, rfl⟩, hn⟩
  · simp only [hk, if_false]
    constructor
    · rintro ⟨rest, ⟨q, hq, h⟩, hn⟩
      split at h
      · rename_i r hr
        cases h
        exact ⟨rest, hn, List.isPrefixOf?_eq_some_iff_append_eq.1 hr ▸ hq⟩
      · cases h
    · rintro ⟨rest, hn, hq⟩
      refine ⟨rest, ⟨_, hq, ?_⟩, hn⟩
      simp only [List.isPrefixOf?_eq_some_iff_append_eq.2 rfl]

theorem nodup_group (s : Store) (key : Text) : (s.group key).Nodup :=
  nodup_foldl_new .nil

/-- Something exists at a key when the root is asked for and the store is not empty, or a stored key is
the key or continues it after a mark; that is when a tree can be read there. The names below a key are,
each once, what stands before the first dot in the stored keys, or in what continues the key after a
dot. -/
theorem existence_agrees (s : Store) (key : Text) :
    (s.has key = true ↔ Key.normalize key = [] ∧ s.keys ≠ [] ∨
      ∃ q ∈ s.keys, q = Key.normalize key ∨ Below (Key.normalize key) q) ∧
    ((s.toValue key).isSome = true ↔ s.has key = true) ∧
    (s.group key).Nodup ∧
    ∀ n, n ∈ s.group key ↔ ∃ rest, (List.splitOn '.' rest).head? = some n ∧
      (Key.normalize key = [] ∧ rest ∈ s.keys ∨
        Key.normalize key ≠ [] ∧ Key.normalize key ++ '.' :: rest ∈ s.keys) := by
  refine ⟨?_, isSome_toValue_iff, nodup_group s key, fun n => ?_⟩
  · rw [has_iff]
    constructor
    · rintro ⟨q, hq, hroot | hc⟩
      · exact .inl ⟨hroot, List.ne_nil_of_mem hq⟩
      · exact .inr ⟨q, hq, hc⟩
    · rintro (⟨hroot, hne⟩ | ⟨q, hq, hc⟩)
      · obtain ⟨q, hq⟩ := List.exists_mem_of_ne_nil _ hne
        exact ⟨q, hq, .inl hroot⟩
      · exact ⟨q, hq, .inr hc⟩
  · rw [mem_group_iff]
    refine exists_congr fun rest => and_congr ?_ ?_
    · rw [head?_splitOn, Option.some.injEq]
    · split
      · rename_i hroot
        simp only [hroot, true_and, ne_eq, not_true_eq_false, false_and, or_false]
      · rename_i hroot
        simp only [hroot, false_and, ne_eq, not_false_eq_true, true_and, false_or]

end ConfigGraph.Store
