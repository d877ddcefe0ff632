import ConfigGraph.Proofs.Store.Holds
import ConfigGraph.Proofs.Value.Rebuild

/-!
# Reading a tree undoes writing it

The leaves below a key, with the paths that their keys spell (`leavesBelow`), are those of the tree that
is held there (`mem_leavesBelow`), whatever their order in the store. So a tree that was written where
nothing was is read back as the tree of its texts (`toValue_set`).
-/

namespace ConfigGraph.Store

open Key (Scope)

/-- The leaves below a key, by their paths from there. -/
def leavesBelow (s : Store) (key : Text) : List (List Segment × Text) :=
  s.entries.filterMap fun (full, text) =>
    (below? key full).map fun path => (Path.split s.size path, text)

theorem toValue_eq {s : Store} {key : Text} (hleaf : s.leaf? (Key.normalize key) = none)
    (hne : s.leavesBelow (Key.normalize key) ≠ []) :
    s.toValue key = some (Value.insertAll (s.leavesBelow (Key.normalize key)) (.map [])) := by
  have hmap : s.leavesBelow (Key.normalize key) =
      (s.entries.filterMap fun (full, text) => (below? (Key.normalize key) full).map (·, text)).map
        fun e => (Path.split s.size e.1, e.2) := by
    simp only [leavesBelow, List.map_filterMap, Option.map_map]
    rfl
  rw [hmap] at hne ⊢
  simp only [toValue, hleaf]
  split
  · rename_i h
    rw [h] at hne
    exact absurd rfl hne
  · rw [Value.insertAll, List.foldl_map]

/-- In the scope of a composite, the leaves and their paths are those of the tree. -/
theorem mem_leavesBelow {s : Store} {k : Text} {v : Value} (h : s.Holds k v) (hw : v.WellFormed)
    (hp : v.Plain) (hf : v.Full) (hc : v.isComposite = true) {p : List Segment} {t : Text} :
    (p, t) ∈ s.leavesBelow k ↔ v.HasLeaf p t := by
  have hpath : ∀ {p t}, v.HasLeaf p t → (below? k (Path.key k p)).map (Path.split s.size) = some p := by
    intro p t hl
    have hr := h.readable hw hp hf hl
    rw [Path.below?_key (fun s hs => (hr s hs).plain) k (hl.ne_nil hc), Option.map_some,
      Path.split_text hr (hl.ne_nil hc)]
  simp only [leavesBelow, List.mem_filterMap, Option.map_eq_some_iff, Prod.mk.injEq, Prod.exists]
  constructor
  · rintro ⟨full, t', he, path, hb, hs, rfl⟩
    obtain ⟨p', hl, rfl⟩ := (h full t' (Path.scope_of_below? hb)).1 (mem_entries_iff.1 he)
    have := hpath hl
    rw [hb, Option.map_some, hs] at this
    cases this
    exact hl
  · intro hl
    obtain ⟨path, hb, hs⟩ := Option.map_eq_some_iff.1 (hpath hl)
    exact ⟨Path.key k p, t, mem_entries_iff.2 (h.leaf?_key hl), path, hb, hs, rfl⟩

/-- What is read at the key of a tree is the tree of its texts. -/
theorem Holds.toValue {s : Store} {key : Text} {v : Value} (h : s.Holds (Key.normalize key) v)
    (hw : v.WellFormed) (hp : v.Plain) (hf : v.Full) : s.toValue key = some v.texts := by
  cases hs : v.scalar? with
  | some t =>
    have hl := h.leaf?_key (.scalar hs)
    rw [Path.key] at hl
    rw [Store.toValue, hl, Value.texts_scalar hs]
  | none =>
    have hc := Value.scalar?_eq_none_iff.1 hs
    have hmem : ∀ p t, (p, t) ∈ s.leavesBelow (Key.normalize key) ↔ v.HasLeaf p t :=
      fun p t => mem_leavesBelow h hw hp hf hc
    have hne := Value.leaves_ne_nil hf hmem
    rw [toValue_eq (h.leaf?_composite hp hc) hne, ← Value.insertAll_leaves hw.ordered hf hmem]
    exact congrArg some (Value.insertAll_congr hne
      (fun e he => ((hmem e.1 e.2).1 he).ne_nil hc) rfl rfl)

/-- A tree that is written where nothing was is read back as the tree of its texts, and that one, set
in an empty store, has the leaves that were written. -/
theorem toValue_set (s : Store) (key : Text) {v : Value} (hw : v.WellFormed) (hp : v.Plain)
    (hf : v.Full) (hk : Key.normalize key = [] → v.isComposite = true)
    (hfree : ∀ q, Scope (Key.normalize key) q → s.leaf? q = none) :
    (s.set key v).toValue key = some v.texts ∧ ∀ q t, (empty.set key v.texts).leaf? q = some t ↔
      Scope (Key.normalize key) q ∧ (s.set key v).leaf? q = some t := by
  have hs : (s.set key v).Holds (Key.normalize key) v := holds_write hw.ordered hp s hk hfree
  refine ⟨hs.toValue hw hp hf, fun q t => ?_⟩
  rw [Store.set, write_effect hw.ordered.texts hp.texts empty _ q t]
  simp only [leaf?_empty, reduceCtorEq, and_false, or_false, Patch.ofValue, Value.hasLeaf_texts_iff]
  constructor
  · rintro ⟨hq, p, hl, rfl⟩
    exact ⟨Path.scope_key _ p, hs.leaf?_key hl⟩
  · rintro ⟨hq, hl⟩
    obtain ⟨p, hp', rfl⟩ := (hs q t hq).1 hl
    exact ⟨key_ne_nil hp hk hp', p, hp', rfl⟩

/-- A sequence of a text and a map, and a truth value beside it. -/
def service : Value :=
  .map [(['h'], .seq [.text ['a'], .map [(['p'], .int 80)]]), (['o'], .bool true)]

theorem toValue_set_service :
    (∀ q, Scope ['s'] q → (empty.put ['s', '2'] ['x']).leaf? q = none) ∧
      ((empty.put ['s', '2'] ['x']).set ['$', '.', 's'] service).toValue ['$', '.', 's'] =
        some service.texts := by
  have hw : service.WellFormed ∧ service.Plain ∧ service.Full := by
    simp [service, Value.WellFormed, Value.Plain, Value.Full, Value.Each, Value.EachEntry,
      Value.EachItem, Entries.Sorted, Text.before, Key.IsName, Number.IntType.greatest,
      Number.IntType.signed, Number.IntType.bits, -Prod.forall]
  have hfree : ∀ q, Scope ['s'] q → (empty.put ['s', '2'] ['x']).leaf? q = none := by
    intro q hq
    have hne : q ≠ ['s', '2'] := by
      rintro rfl
      simp [Scope, Key.Covers, Key.below_iff, Key.IsMark] at hq
    exact leaf?_empty_put (List.cons_ne_nil _ _) hne _
  have hk : Key.normalize ['$', '.', 's'] = [] → service.isComposite = true := fun h => by cases h
  exact ⟨hfree, (toValue_set _ ['$', '.', 's'] hw.1 hw.2.1 hw.2.2 hk hfree).1⟩

end ConfigGraph.Store
