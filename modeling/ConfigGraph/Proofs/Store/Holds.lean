import ConfigGraph.Proofs.Store.Patch

/-!
# A tree under a key

A store holds a tree under a key when its leaves at and below the key are exactly those of the tree
(`Holds`). This is so after the tree was written where nothing was (`holds_write`), and then each part
of the tree is held under the key of the part (`Holds.entry`, `Holds.item`). Since the items of a
sequence are stored under keys that are apart, fewer leaves are left behind each of them
(`length_leavesFrom_lt`), and no number in a path to a leaf reaches the number of leaves
(`Holds.readable`).
-/

namespace ConfigGraph.Store

open Key (Covers Scope Apart)

/-- The leaves at a key and below it are those of a tree. -/
def Holds (s : Store) (key : Text) (v : Value) : Prop :=
  ∀ q t, Scope key q → (s.leaf? q = some t ↔ ∃ p, v.HasLeaf p t ∧ Path.key key p = q)

section

variable {s : Store} {k n : Text} {v : Value} {es : List (Text × Value)} {vs : List Value}

theorem Holds.leaf?_key (h : s.Holds k v) {p : List Segment} {t : Text} (hl : v.HasLeaf p t) :
    s.leaf? (Path.key k p) = some t :=
  (h _ t (Path.scope_key k p)).2 ⟨p, hl, rfl⟩

/-- A leaf in the scope of a map belongs to one of its entries. -/
theorem Holds.exists_entry (h : s.Holds k (.map es)) (hn : ∀ e ∈ es, Key.IsName e.1) {q t : Text}
    (hk : Scope k q) (hq : s.leaf? q = some t) : ∃ e ∈ es, Covers (Key.join k e.1) q := by
  simp only [h q t hk, Value.hasLeaf_map_iff,
    Patch.exists_entry_iff (R := fun v r => v.HasLeaf r t)] at hq
  obtain ⟨e, he, r, -, rfl⟩ := hq
  exact ⟨e, he, Path.covers_key (Key.join_ne_nil k (hn e he).1) r⟩

theorem Holds.entry (h : s.Holds k (.map es)) (hs : Entries.Sorted es)
    (hn : ∀ e ∈ es, Key.IsName e.1) (he : (n, v) ∈ es) : s.Holds (Key.join k n) v := by
  intro q t hq
  have hc : Covers (Key.join k n) q := hq.covers (Key.join_ne_nil k (hn _ he).1)
  simp only [h q t (Key.scope_of_join (hn _ he).1 hc), Value.hasLeaf_map_iff,
    Patch.exists_entry_iff (R := fun v r => v.HasLeaf r t)]
  constructor
  · rintro ⟨⟨m, w⟩, hm, r, hr, hrq⟩
    have hmn : m = n := by
      refine Classical.byContradiction fun hne => ?_
      have ha := Key.apart_join k (hn _ hm) (hn _ he) hne
      exact ha.not_covers (hrq ▸ Path.covers_key (Key.join_ne_nil k (hn _ hm).1) r) hc
    subst hmn
    have hvw : some w = some v :=
      ((Entries.find?_eq_some_iff hs).2 hm).symm.trans ((Entries.find?_eq_some_iff hs).2 he)
    cases hvw
    exact ⟨r, hr, hrq⟩
  · rintro ⟨r, hr, hrq⟩
    exact ⟨(n, v), he, r, hr, hrq⟩

/-- A leaf in the scope of a sequence belongs to one of its items. -/
theorem Holds.exists_item (h : s.Holds k (.seq vs)) {q t : Text} (hk : Scope k q)
    (hq : s.leaf? q = some t) : ∃ i < vs.length, Covers (Key.element k i) q := by
  simp only [h q t hk, Value.hasLeaf_seq_iff,
    Patch.exists_item_iff (R := fun v r => v.HasLeaf r t)] at hq
  obtain ⟨⟨v, i⟩, he, r, -, rfl⟩ := hq
  exact ⟨i, List.snd_lt_of_mem_zipIdx he, Path.covers_key (Key.element_ne_nil k i) r⟩

theorem Holds.item (h : s.Holds k (.seq vs)) {i : Nat} (hi : vs[i]? = some v) :
    s.Holds (Key.element k i) v := by
  intro q t hq
  have hc : Covers (Key.element k i) q := hq.covers (Key.element_ne_nil k i)
  simp only [h q t (Key.scope_of_element hc), Value.hasLeaf_seq_iff,
    Patch.exists_item_iff (R := fun v r => v.HasLeaf r t)]
  constructor
  · rintro ⟨⟨w, j⟩, hj, r, hr, hrq⟩
    have hij : j = i := by
      refine Classical.byContradiction fun hne => ?_
      exact (Key.apart_element k hne).not_covers
        (hrq ▸ Path.covers_key (Key.element_ne_nil k j) r) hc
    subst hij
    have hvw : some w = some v := (List.mem_zipIdx_iff_getElem?.1 hj).symm.trans hi
    cases hvw
    exact ⟨r, hr, hrq⟩
  · rintro ⟨r, hr, hrq⟩
    exact ⟨(v, i), List.mem_zipIdx_iff_getElem?.2 hi, r, hr, hrq⟩

/-- At the key of a map or a sequence itself there is no leaf. -/
theorem Holds.leaf?_composite (h : s.Holds k v) (hp : v.Plain) (hc : v.isComposite = true) :
    s.leaf? k = none := by
  refine Option.eq_none_iff_forall_not_mem.2 fun t ht => ?_
  cases v with
  | seq vs =>
    obtain ⟨i, -, hi⟩ := h.exists_item (.inr (.refl k)) ht
    exact Key.not_covers_element k i hi
  | map es =>
    have hn := (Value.plain_map_iff.1 hp).1
    obtain ⟨e, he, hce⟩ := h.exists_entry hn (.inr (.refl k)) ht
    exact Key.not_covers_join k (hn e he).1 hce
  | _ => cases hc

end

/-! ## How many leaves there are -/

/-- The keys of the leaves that belong to no element before a number. -/
def leavesFrom (s : Store) (k : Text) (i : Nat) : List Text :=
  s.keys.filter fun q => !(List.range i).any fun j => decide (Covers (Key.element k j) q)

theorem length_leavesFrom_le (s : Store) (k : Text) (i : Nat) :
    (s.leavesFrom k i).length ≤ s.size := by
  have hle : (s.leavesFrom k i).length ≤ s.keys.length := List.length_filter_le _ _
  rwa [keys, List.length_map] at hle

theorem leavesFrom_succ (s : Store) (k : Text) (i : Nat) : s.leavesFrom k (i + 1) =
    (s.leavesFrom k i).filter fun q => !decide (Covers (Key.element k i) q) := by
  rw [leavesFrom, leavesFrom, List.filter_filter]
  refine congrArg (fun p => s.keys.filter p) (funext fun q => ?_)
  rw [List.range_succ, List.any_append, Bool.not_or, Bool.and_comm]
  simp

/-- Behind an element with a leaf, fewer leaves are left. -/
theorem length_leavesFrom_lt {s : Store} {k : Text} {i : Nat}
    (h : ∃ q ∈ s.keys, Covers (Key.element k i) q) :
    (s.leavesFrom k (i + 1)).length < (s.leavesFrom k i).length := by
  obtain ⟨q, hq, hc⟩ := h
  have hearlier : ∀ j < i, ¬ Covers (Key.element k j) q := fun j hj =>
    (Key.apart_element k (Nat.ne_of_gt hj)).not_covers hc
  have hmem : q ∈ s.leavesFrom k i := List.mem_filter.2 ⟨hq, by simpa using hearlier⟩
  rw [leavesFrom_succ]
  exact List.length_filter_lt_length_iff_exists.2 ⟨q, hmem, by simpa using hc⟩

/-- Elements with leaves are no more than the leaves. -/
theorem le_size_of_elements {s : Store} {k : Text} {n : Nat}
    (h : ∀ i < n, ∃ q ∈ s.keys, Covers (Key.element k i) q) : n ≤ s.size := by
  have hleft : ∀ i ≤ n, i + (s.leavesFrom k i).length ≤ s.size := by
    intro i hi
    induction i with
    | zero => exact (Nat.zero_add _).symm ▸ s.length_leavesFrom_le k 0
    | succ i ih =>
      have hlt := length_leavesFrom_lt (h i hi)
      have hle := ih (Nat.le_of_succ_le hi)
      omega
  exact Nat.le_trans (Nat.le_add_right n _) (hleft n (Nat.le_refl n))

theorem Holds.length_le_size {s : Store} {k : Text} {vs : List Value} (h : s.Holds k (.seq vs))
    (hl : ∀ v ∈ vs, ∃ p t, v.HasLeaf p t) : vs.length ≤ s.size := by
  refine le_size_of_elements (k := k) fun i hi => ?_
  obtain ⟨p, t, hp⟩ := hl _ (List.getElem_mem hi)
  have hc := Path.covers_key (Key.element_ne_nil k i) p
  have hq := (h.item (List.getElem?_eq_getElem hi)).leaf?_key hp
  exact ⟨_, mem_keys_iff.2 ⟨t, hq⟩, hc⟩

/-- The paths to the leaves of a tree in a store can be read with the number of leaves for a limit. -/
theorem Holds.readable {s : Store} {k : Text} {v : Value} (h : s.Holds k v) (hw : v.WellFormed)
    (hp : v.Plain) (hf : v.Full) {p : List Segment} {t : Text} (hl : v.HasLeaf p t) :
    ∀ seg ∈ p, Path.Readable s.size seg := by
  induction hl generalizing k with
  | scalar => exact fun seg hm => absurd hm List.not_mem_nil
  | entry he _ ih =>
    obtain ⟨hs, hw⟩ := Value.wellFormed_map_iff.1 hw
    obtain ⟨hn, hp⟩ := Value.plain_map_iff.1 hp
    obtain ⟨-, hf⟩ := Value.full_map_iff.1 hf
    refine List.forall_mem_cons.2 ⟨hn _ he, ?_⟩
    exact ih (h.entry hs hn he) (hw _ he) (hp _ he) (hf _ he)
  | @item vs i t v p hi _ ih =>
    obtain ⟨hb, hw⟩ := Value.wellFormed_seq_iff.1 hw
    have hp := Value.plain_seq_iff.1 hp
    obtain ⟨-, hf⟩ := Value.full_seq_iff.1 hf
    -- each item has a leaf of its own, so the number is below that of the leaves
    have hlt : i < vs.length := (List.getElem?_eq_some_iff.1 hi).1
    have hlen := h.length_le_size fun v hv => Value.Full.exists_leaf (hf v hv)
    have hv := List.mem_of_getElem? hi
    have hi' : (i : Int) ≤ Number.IntType.usize.greatest := by omega
    refine List.forall_mem_cons.2
      ⟨⟨Nat.lt_of_lt_of_le hlt hlen, Number.IntType.usize_holds hi'⟩, ?_⟩
    exact ih (h.item hi) (hw v hv) (hp v hv) (hf v hv)

/-! ## Writing where nothing is -/

theorem key_ne_nil {k : Text} {v : Value} (hp : v.Plain) (hk : k = [] → v.isComposite = true)
    {p : List Segment} {t : Text} (hl : v.HasLeaf p t) : Path.key k p ≠ [] := by
  cases hl with
  | scalar h =>
    intro he
    rw [Value.scalar?_eq_none_iff.2 (hk he)] at h
    cases h
  | entry he =>
    have hn := (Value.plain_map_iff.1 hp).1 _ he
    exact (Path.covers_key (Key.join_ne_nil k hn.1) _).ne_nil (Key.join_ne_nil k hn.1)
  | item => exact (Path.covers_key (Key.element_ne_nil k _) _).ne_nil (Key.element_ne_nil k _)

/-- After a tree was written under a key at and below which nothing was, it is held there. -/
theorem holds_write {v : Value} (hw : v.Ordered) (hp : v.Plain) (s : Store) {k : Text}
    (hk : k = [] → v.isComposite = true) (hfree : ∀ q, Scope k q → s.leaf? q = none) :
    (s.write k v).Holds k v := by
  intro q t hq
  rw [write_effect hw hp s k q t, hfree q hq]
  simp only [reduceCtorEq, and_false, or_false, Patch.ofValue]
  refine ⟨And.right, fun h => ⟨?_, h⟩⟩
  obtain ⟨p, hl, rfl⟩ := h
  exact key_ne_nil hp hk hl

end ConfigGraph.Store
