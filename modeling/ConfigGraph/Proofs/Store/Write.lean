import ConfigGraph.Proofs.Store.Leaf
import ConfigGraph.Proofs.Value.Parts
import ConfigGraph.Store.Write

/-!
# Writing a tree, step by step

A scalar is put under its key (`write_scalar`). A map or a sequence erases the text at its own key and
writes its parts one after the other (`write_map`, `write_seq`). So what putting and erasing keep,
writing any tree keeps (`write_keeps`).
-/

namespace ConfigGraph.Store

theorem write_scalar {v : Value} {t : Text} (h : v.scalar? = some t) (s : Store) (key : Text) :
    s.write key v = s.put key t := by
  cases v <;> simp only [Value.scalar?, Option.some.injEq, reduceCtorEq] at h <;> subst h <;> rfl

theorem writeEntries_eq (es : List (Text × Value)) (s : Store) (key : Text) :
    s.writeEntries key es = es.foldl (fun s e => s.write (Key.join key e.1) e.2) s := by
  induction es generalizing s with
  | nil => rfl
  | cons e es ih => exact ih _

theorem writeItems_eq (vs : List Value) (s : Store) (key : Text) (i : Nat) :
    s.writeItems key i vs =
      (vs.zipIdx i).foldl (fun s e => s.write (Key.element key e.2) e.1) s := by
  induction vs generalizing s i with
  | nil => rfl
  | cons v vs ih => exact ih _ _

theorem write_map (es : List (Text × Value)) (s : Store) (key : Text) :
    s.write key (.map es) =
      es.foldl (fun s e => s.write (Key.join key e.1) e.2) (s.erase key) :=
  writeEntries_eq es (s.erase key) key

theorem write_seq (vs : List Value) (s : Store) (key : Text) :
    s.write key (.seq vs) =
      vs.zipIdx.foldl (fun s e => s.write (Key.element key e.2) e.1) (s.erase key) :=
  writeItems_eq vs (s.erase key) key 0

/-- What putting and erasing a leaf keep, writing a tree keeps. -/
theorem write_keeps {P : Store → Prop} (hput : ∀ s key text, P s → P (s.put key text))
    (herase : ∀ s key, P s → P (s.erase key)) (v : Value) {s : Store} (key : Text) (hs : P s) :
    P (s.write key v) := by
  induction v using Value.induct generalizing s key with
  | scalar v t h =>
    rw [write_scalar h]
    exact hput _ _ _ hs
  | seq vs ih =>
    rw [write_seq]
    refine List.foldlRecOn _ _ (herase _ _ hs) fun t ht e he => ih e.1 ?_ _ ht
    exact (List.mem_zipIdx' he).2 ▸ List.getElem_mem _
  | map es ih =>
    rw [write_map]
    exact List.foldlRecOn _ _ (herase _ _ hs) fun t ht e he => ih e he _ ht

end ConfigGraph.Store
