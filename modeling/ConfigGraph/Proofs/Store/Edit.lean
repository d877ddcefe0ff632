import ConfigGraph.Proofs.Store.Write
import ConfigGraph.Source.Layers

/-!
# Edits of a store

A store changes by edits (`Edit`), of which some may fail and then leave it as it is. No sequence of
edits of the empty store brings about an empty key, or a key that continues another one: every key
names a leaf (`Leafy`). Each edit keeps this (`Leafy.run`), for it only puts and erases leaves.
-/

namespace ConfigGraph

/-- An operation that changes a store. -/
inductive Edit where
  | set (key : Text) (v : Value)
  | setSerial (key : Text) (v : Serial)
  /-- Merges the store that the edits make of the empty one. -/
  | merge (edits : List Edit)
  | read (formats : Registry) (ext : Text) (bytes : List UInt8)
  | load (files : FileTree) (formats : Registry) (path : Text)

namespace Edit

/-- What an operation gives that may fail; the store as it was when it does. -/
def kept {ε : Type} (s : Store) : Except ε Store → Store
  | .ok t => t
  | .error _ => s

mutual

/-- The store after an edit. -/
def run (s : Store) : Edit → Store
  | set key v => s.set key v
  | setSerial key v => kept s (s.setSerial key v)
  | merge edits => s.merge (runAll Store.empty edits)
  | read formats ext bytes => kept s (s.read formats ext bytes)
  | load files formats path => kept s (s.load files formats path)

/-- The store after some edits, one after the other. -/
def runAll (s : Store) : List Edit → Store
  | [] => s
  | e :: rest => runAll (run s e) rest

end

end Edit

namespace Store

/-- Edits of the empty store lead to this store. -/
def Reachable (s : Store) : Prop :=
  ∃ edits, Edit.runAll empty edits = s

/-- Every key names a leaf: none is empty, and none continues another one after a dot or a
bracket. -/
structure Leafy (s : Store) : Prop where
  ne_nil : ∀ k ∈ s.keys, k ≠ []
  not_below : ∀ k₁ ∈ s.keys, ∀ k₂ ∈ s.keys, ∀ rest,
    k₂ ≠ k₁ ++ '.' :: rest ∧ k₂ ≠ k₁ ++ '[' :: rest

theorem leafy_iff {s : Store} :
    s.Leafy ↔ (∀ k ∈ s.keys, k ≠ []) ∧ ∀ k₁ ∈ s.keys, ∀ k₂ ∈ s.keys, ¬ Key.Below k₁ k₂ := by
  simp only [Key.Below, not_exists, not_or]
  exact ⟨fun h => ⟨h.1, h.2⟩, fun h => ⟨h.1, h.2⟩⟩

theorem leafy_empty : empty.Leafy :=
  leafy_iff.2 ⟨fun _ h => absurd h List.not_mem_nil, fun _ h => absurd h List.not_mem_nil⟩

theorem mem_keys_erase {s : Store} {k q : Text} (h : q ∈ (s.erase k).keys) : q ∈ s.keys := by
  obtain ⟨t, ht⟩ := mem_keys_iff.1 h
  rw [leaf?_erase] at ht
  split at ht
  · cases ht
  · exact mem_keys_iff.2 ⟨t, ht⟩

/-- What is there after a leaf has been put: that leaf, and what is not related to it. -/
theorem mem_keys_put {s : Store} {k : Text} (hk : k ≠ []) {text q : Text}
    (h : q ∈ (s.put k text).keys) :
    q = k ∨ q ∈ s.keys ∧ ¬ Key.Below k q ∧ ¬ Key.Below q k := by
  obtain ⟨t, ht⟩ := mem_keys_iff.1 h
  rw [leaf?_put s hk] at ht
  split at ht
  · exact .inl ‹_›
  · split at ht
    · cases ht
    · rename_i hr
      rw [Key.related_iff, not_or] at hr
      exact .inr ⟨mem_keys_iff.2 ⟨t, ht⟩, hr⟩

theorem Leafy.erase {s : Store} (h : s.Leafy) (k : Text) : (s.erase k).Leafy := by
  rw [leafy_iff] at h ⊢
  exact ⟨fun q hq => h.1 q (mem_keys_erase hq),
    fun a ha b hb => h.2 a (mem_keys_erase ha) b (mem_keys_erase hb)⟩

theorem Leafy.put {s : Store} (h : s.Leafy) (k text : Text) : (s.put k text).Leafy := by
  by_cases hk : k = []
  · subst hk
    exact h
  rw [leafy_iff] at h ⊢
  refine ⟨fun q hq => ?_, fun a ha b hb => ?_⟩
  · rcases mem_keys_put hk hq with rfl | ⟨hq, -⟩
    · exact hk
    · exact h.1 q hq
  · rcases mem_keys_put hk ha with rfl | ⟨ha, -, hak⟩
    · rcases mem_keys_put hk hb with rfl | ⟨-, hkb, -⟩
      · exact Key.not_below_self _
      · exact hkb
    · rcases mem_keys_put hk hb with rfl | ⟨hb, -⟩
      · exact hak
      · exact h.2 a ha b hb

theorem Leafy.set {s : Store} (h : s.Leafy) (key : Text) (v : Value) : (s.set key v).Leafy :=
  write_keeps (fun _ k t hs => hs.put k t) (fun _ k hs => hs.erase k) v _ h

theorem Leafy.merge {s : Store} (h : s.Leafy) (t : Store) : (s.merge t).Leafy :=
  List.foldlRecOn _ _ h fun _ hs e _ => hs.put e.1 e.2

theorem Leafy.kept {ε : Type} {s : Store} {r : Except ε Store} (h : s.Leafy)
    (hr : ∀ t, r = .ok t → t.Leafy) : (Edit.kept s r).Leafy := by
  cases r with
  | error e => exact h
  | ok t => exact hr t rfl

theorem Leafy.read {s t : Store} (h : s.Leafy) {formats : Registry} {ext : Text}
    {bytes : List UInt8} (ht : s.read formats ext bytes = .ok t) : t.Leafy := by
  unfold Store.read at ht
  cases hd : formats.decode ext bytes with
  | error e => rw [hd] at ht; cases ht
  | ok v =>
    rw [hd] at ht
    cases ht
    exact h.set _ v

/-- An edit keeps that every key names a leaf, whether it fails or not. -/
theorem Leafy.run {s : Store} (h : s.Leafy) (e : Edit) : (e.run s).Leafy := by
  cases e with
  | set key v => exact h.set key v
  | setSerial key v =>
    refine h.kept fun t ht => ?_
    unfold Store.setSerial at ht
    cases hv : v.toValue with
    | error e => rw [hv] at ht; cases ht
    | ok v =>
      rw [hv] at ht
      cases ht
      exact h.set key v
  | merge edits => exact h.merge _
  | read formats ext bytes => exact h.kept fun t ht => h.read ht
  | load files formats path =>
    refine h.kept fun t ht => ?_
    unfold Store.load at ht
    split at ht
    · cases ht
    · cases ht
    · exact h.read ht

theorem Leafy.runAll {s : Store} (h : s.Leafy) (edits : List Edit) : (Edit.runAll s edits).Leafy := by
  induction edits generalizing s with
  | nil => exact h
  | cons e rest ih => exact ih (h.run e)

theorem Reachable.leafy {s : Store} (h : s.Reachable) : s.Leafy := by
  obtain ⟨edits, rfl⟩ := h
  exact leafy_empty.runAll edits

/-- Whatever edits are made to the empty store, with any keys and any trees, and whichever of them
fail: no key is empty, and no key continues another one after a dot or a bracket. -/
theorem edits_leafy (edits : List Edit) : (Edit.runAll empty edits).Leafy :=
  leafy_empty.runAll edits

end Store

end ConfigGraph
