import ConfigGraph.Proofs.Entries
import ConfigGraph.Proofs.Store.Below
import ConfigGraph.Store.Basic

/-!
# The leaves of a store

What is stored under each key after one leaf has been written (`leaf?_put`) or erased (`leaf?_erase`).
A store is determined by its leaves (`ext_leaf?`).
-/

namespace ConfigGraph.Store

@[simp]
theorem leaf?_empty (q : Text) : empty.leaf? q = none := rfl

theorem mem_entries_iff {s : Store} {q t : Text} : (q, t) ∈ s.entries ↔ s.leaf? q = some t :=
  (Entries.find?_eq_some_iff s.sorted).symm

theorem mem_keys_iff {s : Store} {q : Text} : q ∈ s.keys ↔ ∃ t, s.leaf? q = some t := by
  simp only [keys, List.mem_map, Prod.exists, exists_and_right, exists_eq_right, mem_entries_iff]

theorem ext_leaf? {s t : Store} (h : ∀ q, s.leaf? q = t.leaf? q) : s = t := by
  have he : s.entries = t.entries := Entries.ext_find? s.sorted t.sorted h
  cases s
  cases t
  cases he
  rfl

theorem leaf?_erase (s : Store) (k q : Text) :
    (s.erase k).leaf? q = if q = k then none else s.leaf? q := by
  show Entries.find? (s.entries.filter fun e => e.1 != k) q = _
  rw [Entries.find?_filter (fun n => n != k) q]
  by_cases h : q = k
  · simp [h]
  · simp [h, leaf?]

@[simp]
theorem put_nil (s : Store) (text : Text) : s.put [] text = s := rfl

theorem leaf?_put (s : Store) {k : Text} (hk : k ≠ []) (text q : Text) :
    (s.put k text).leaf? q =
      if q = k then some text else if Key.related k q then none else s.leaf? q := by
  have he : (s.put k text).entries =
      Entries.put k text (s.entries.filter fun e => !Key.related k e.1) := by
    simp only [put, List.isEmpty_eq_false_iff.2 hk, Bool.false_eq_true, if_false]
  rw [leaf?, he, Entries.find?_put, Entries.find?_filter (fun n => !Key.related k n) q]
  cases Key.related k q <;> rfl

theorem leaf?_empty_put {k q : Text} (hk : k ≠ []) (hq : q ≠ k) (text : Text) :
    (empty.put k text).leaf? q = none := by
  rw [leaf?_put _ hk, if_neg hq]
  split <;> rfl

end ConfigGraph.Store
