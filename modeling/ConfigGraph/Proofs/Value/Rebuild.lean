import ConfigGraph.Proofs.Entries
import ConfigGraph.Proofs.Value.Texts

/-!
# Rebuilding a tree from its leaves

Inserting leaves into a map or a sequence does to each part what inserting the leaves behind the step
to that part does to it (`insertAll_map`, `insertAll_seq`). So the leaves of a tree in which nothing is
empty, inserted in any order, give the tree of its texts (`insertAll_leaves`), by induction on the tree.
The nulls that fill up a sequence are all overwritten, as each item has a leaf.
-/

namespace ConfigGraph

deriving instance DecidableEq for Segment

namespace Value

open Entries (find? Sorted)

/-- The leaves whose paths start with a step, with the rest of the path. -/
def behind (step : Segment) (leaves : List (List Segment × Text)) : List (List Segment × Text) :=
  leaves.filterMap fun
    | (step' :: path, t) => if step' = step then some (path, t) else none
    | ([], _) => none

/-- Inserts leaves one after the other. -/
def insertAll (leaves : List (List Segment × Text)) (v : Value) : Value :=
  leaves.foldl (fun v e => insert (.text e.2) e.1 v) v

/-- Inserts leaves where there may be nothing yet. -/
def insertAll? (leaves : List (List Segment × Text)) (v? : Option Value) : Option Value :=
  leaves.foldl (fun v? e => some (insert (.text e.2) e.1 (v?.getD null))) v?

section

variable {leaves : List (List Segment × Text)}

theorem mem_behind {step : Segment} {p : List Segment} {t : Text} :
    (p, t) ∈ behind step leaves ↔ (step :: p, t) ∈ leaves := by
  rw [behind, List.mem_filterMap]
  constructor
  · rintro ⟨⟨_ | ⟨step', p'⟩, t'⟩, he, h⟩
    · cases h
    · simp only [Option.ite_none_right_eq_some, Option.some.injEq, Prod.mk.injEq] at h
      obtain ⟨rfl, rfl, rfl⟩ := h
      exact he
  · exact fun h => ⟨_, h, if_pos rfl⟩

theorem behind_cons_self (step : Segment) (p : List Segment) (t : Text) :
    behind step ((step :: p, t) :: leaves) = (p, t) :: behind step leaves := by
  simp only [behind, List.filterMap_cons, if_true]

theorem behind_cons_of_ne {step step' : Segment} (h : step' ≠ step) (p : List Segment) (t : Text) :
    behind step ((step' :: p, t) :: leaves) = behind step leaves := by
  simp only [behind, List.filterMap_cons, if_neg h]

theorem insertAll?_some (v : Value) : insertAll? leaves (some v) = some (insertAll leaves v) := by
  induction leaves generalizing v with
  | nil => rfl
  | cons e leaves ih => exact ih _

theorem insertAll?_none (hne : leaves ≠ []) :
    insertAll? leaves none = some (insertAll leaves null) := by
  obtain ⟨e, leaves, rfl⟩ := List.exists_cons_of_ne_nil hne
  exact insertAll?_some _

/-- The first step decides what kind of tree there is, so only the parts matter. -/
theorem insertAll_congr {v w : Value} (hne : leaves ≠ []) (hp : ∀ e ∈ leaves, e.1 ≠ [])
    (he : v.entries = w.entries) (hi : v.items = w.items) :
    insertAll leaves v = insertAll leaves w := by
  obtain ⟨⟨p, t⟩, leaves, rfl⟩ := List.exists_cons_of_ne_nil hne
  obtain ⟨step, p, rfl⟩ := List.exists_cons_of_ne_nil (hp _ List.mem_cons_self)
  have h : insert (.text t) (step :: p) v = insert (.text t) (step :: p) w := by
    cases step with
    | name n => rw [insert, insert, he]
    | index i => rw [insert, insert, hi]
  rw [insertAll, List.foldl_cons, h]
  rfl

theorem insertAll_text {t : Text} (h : ∀ e ∈ leaves, e = ([], t)) :
    insertAll leaves (.text t) = .text t := by
  induction leaves with
  | nil => rfl
  | cons e leaves ih =>
    obtain rfl := h e List.mem_cons_self
    exact ih fun e he => h e (List.mem_cons_of_mem _ he)

/-- Inserting into a map inserts into its entries. -/
theorem insertAll_map (hp : ∀ e ∈ leaves, ∃ n p, e.1 = .name n :: p) (es : List (Text × Value))
    (hs : Sorted es) :
    ∃ fs, insertAll leaves (.map es) = .map fs ∧ Sorted fs ∧
      ∀ n, find? fs n = insertAll? (behind (.name n) leaves) (find? es n) := by
  induction leaves generalizing es with
  | nil => exact ⟨es, rfl, hs, fun n => rfl⟩
  | cons e leaves ih =>
    obtain ⟨p, t⟩ := e
    obtain ⟨m, p, rfl⟩ := hp _ List.mem_cons_self
    obtain ⟨fs, hfs, hsorted, hfind⟩ := ih (fun e he => hp e (List.mem_cons_of_mem _ he)) _
      (Entries.sorted_put hs m (insert (.text t) p ((find? es m).getD null)))
    refine ⟨fs, hfs, hsorted, fun n => ?_⟩
    rw [hfind n, Entries.find?_put]
    by_cases hn : n = m
    · subst hn
      rw [if_pos rfl, behind_cons_self]
      rfl
    · rw [if_neg hn, behind_cons_of_ne fun e => hn (by cases e; rfl)]

theorem length_padded (i : Nat) (vs : List Value) : (padded i vs).length = max vs.length (i + 1) := by
  rw [padded, List.length_append, List.length_replicate]; omega

theorem getD_padded (i j : Nat) (vs : List Value) :
    (padded i vs)[j]?.getD null = vs[j]?.getD null := by
  rw [padded, List.getElem?_append]
  split
  · rfl
  · rename_i hj
    rw [List.getElem?_replicate, List.getElem?_eq_none (Nat.le_of_not_lt hj)]
    split <;> rfl

theorem getD_modify_padded (i j : Nat) (vs : List Value) (f : Value → Value) :
    ((padded i vs).modify i f)[j]?.getD null =
      if j = i then f (vs[i]?.getD null) else vs[j]?.getD null := by
  rw [List.getElem?_modify]
  by_cases hj : j = i
  · subst hj
    have hlt : j < (padded j vs).length := by rw [length_padded]; omega
    rw [if_pos rfl, ← getD_padded j j vs, List.getElem?_eq_getElem hlt]
    simp only [if_true, Option.map_eq_map, Option.map_some, Option.getD_some]
  · rw [if_neg hj, ← getD_padded i j vs]
    cases (padded i vs)[j]? <;> simp [Ne.symm hj]

/-- Inserting into a sequence inserts into its items; it gets as long as the largest number asks for. -/
theorem insertAll_seq (hp : ∀ e ∈ leaves, ∃ i p, e.1 = .index i :: p) (vs : List Value) :
    ∃ ws, insertAll leaves (.seq vs) = .seq ws ∧
      (∀ j, ws[j]?.getD null = insertAll (behind (.index j) leaves) (vs[j]?.getD null)) ∧
      ∀ n, ws.length ≤ n ↔ vs.length ≤ n ∧ ∀ i p t, (.index i :: p, t) ∈ leaves → i < n := by
  induction leaves generalizing vs with
  | nil => exact ⟨vs, rfl, fun j => rfl, fun n => by simp⟩
  | cons e leaves ih =>
    obtain ⟨p, t⟩ := e
    obtain ⟨m, p, rfl⟩ := hp _ List.mem_cons_self
    obtain ⟨ws, hws, hget, hlen⟩ := ih (fun e he => hp e (List.mem_cons_of_mem _ he))
      ((padded m vs).modify m (insert (.text t) p))
    refine ⟨ws, hws, fun j => ?_, fun n => ?_⟩
    · rw [hget j, getD_modify_padded]
      by_cases hj : j = m
      · subst hj
        rw [if_pos rfl, behind_cons_self]
        rfl
      · rw [if_neg hj, behind_cons_of_ne fun e => hj (by cases e; rfl)]
    · rw [hlen n, List.length_modify, length_padded, Nat.max_le]
      simp only [List.mem_cons, Prod.mk.injEq, List.cons.injEq, Segment.index.injEq]
      constructor
      · rintro ⟨⟨hv, hm⟩, hl⟩
        refine ⟨hv, fun i q u h => ?_⟩
        rcases h with ⟨⟨rfl, -⟩, -⟩ | h
        · exact hm
        · exact hl i q u h
      · rintro ⟨hv, hl⟩
        exact ⟨⟨hv, hl m p t (.inl ⟨⟨rfl, rfl⟩, rfl⟩)⟩, fun i q u h => hl i q u (.inr h)⟩

/-! ## All the leaves of a tree -/

variable {v : Value} {vs : List Value} {es : List (Text × Value)}

theorem leaves_ne_nil (hf : v.Full) (h : ∀ p t, (p, t) ∈ leaves ↔ HasLeaf v p t) : leaves ≠ [] := by
  obtain ⟨p, t, hl⟩ := hf.exists_leaf
  exact List.ne_nil_of_mem ((h p t).2 hl)

theorem mem_behind_item (h : ∀ p t, (p, t) ∈ leaves ↔ HasLeaf (.seq vs) p t) {i : Nat}
    (hi : vs[i]? = some v) (p : List Segment) (t : Text) :
    (p, t) ∈ behind (.index i) leaves ↔ HasLeaf v p t := by
  rw [mem_behind, h, hasLeaf_seq_iff]
  constructor
  · rintro ⟨j, w, q, hj, hl, heq⟩
    cases heq
    rw [hi] at hj
    cases hj
    exact hl
  · exact fun hl => ⟨i, v, p, hi, hl, rfl⟩

theorem mem_behind_entry (h : ∀ p t, (p, t) ∈ leaves ↔ HasLeaf (.map es) p t) (hs : Sorted es)
    {n : Text} (hn : find? es n = some v) (p : List Segment) (t : Text) :
    (p, t) ∈ behind (.name n) leaves ↔ HasLeaf v p t := by
  rw [mem_behind, h, hasLeaf_map_iff]
  constructor
  · rintro ⟨m, w, q, hm, hl, heq⟩
    cases heq
    rw [(Entries.find?_eq_some_iff hs).2 hm] at hn
    cases hn
    exact hl
  · exact fun hl => ⟨n, v, p, Entries.mem_of_find? hn, hl, rfl⟩

theorem behind_eq_nil (h : ∀ p t, (p, t) ∈ leaves ↔ HasLeaf (.map es) p t) {n : Text}
    (hn : find? es n = none) : behind (.name n) leaves = [] := by
  refine List.eq_nil_iff_forall_not_mem.2 fun ⟨p, t⟩ hm => ?_
  obtain ⟨m, w, q, hm, -, heq⟩ := hasLeaf_map_iff.1 ((h _ t).1 (mem_behind.1 hm))
  cases heq
  exact Entries.find?_eq_none_iff.1 hn w hm

/-- The leaves of a sequence rebuild it when those of each item do. -/
theorem insertAll_leaves_seq (hf : (seq vs).Full) (h : ∀ p t, (p, t) ∈ leaves ↔ HasLeaf (.seq vs) p t)
    (ih : ∀ i (hi : i < vs.length), insertAll (behind (.index i) leaves) null = vs[i].texts) :
    insertAll leaves null = (seq vs).texts := by
  have hp : ∀ e ∈ leaves, ∃ i p, e.1 = .index i :: p := fun e he => by
    obtain ⟨i, v, q, -, -, hp⟩ := hasLeaf_seq_iff.1 ((h e.1 e.2).1 he)
    exact ⟨i, q, hp⟩
  obtain ⟨ws, hws, hget, hlen⟩ := insertAll_seq hp []
  -- the last item is reached, as it has a leaf, and nothing beyond it is
  have hl : ws.length = vs.length := by
    refine Nat.le_antisymm ((hlen _).2 ⟨Nat.zero_le _, fun i p t hm => ?_⟩) ?_
    · obtain ⟨j, w, q, hj, -, heq⟩ := hasLeaf_seq_iff.1 ((h _ t).1 hm)
      cases heq
      exact (List.getElem?_eq_some_iff.1 hj).1
    · refine Nat.le_of_not_lt fun hlt => ?_
      obtain ⟨p, t, hl⟩ := Full.exists_leaf ((full_seq_iff.1 hf).2 _ (List.getElem_mem hlt))
      have hm := (mem_behind_item h (List.getElem?_eq_getElem hlt) p t).2 hl
      exact Nat.lt_irrefl _ (((hlen _).1 (Nat.le_refl _)).2 _ p t (mem_behind.1 hm))
  have hstart : insertAll leaves null = insertAll leaves (.seq []) := by
    refine insertAll_congr (leaves_ne_nil hf h) (fun e he => ?_) rfl rfl
    obtain ⟨i, p, hi⟩ := hp e he
    exact hi ▸ List.cons_ne_nil _ _
  rw [hstart, hws, texts_seq]
  refine congrArg seq (List.ext_getElem (by rw [hl, List.length_map]) fun i hi _ => ?_)
  have hg := hget i
  rw [List.getElem?_eq_getElem hi] at hg
  rw [List.getElem_map]
  exact hg.trans (ih i (hl ▸ hi))

/-- The leaves of a map rebuild it when those of each entry do. -/
theorem insertAll_leaves_map (hs : Sorted es) (hf : (map es).Full)
    (h : ∀ p t, (p, t) ∈ leaves ↔ HasLeaf (.map es) p t)
    (ih : ∀ n v, find? es n = some v → insertAll (behind (.name n) leaves) null = v.texts) :
    insertAll leaves null = (map es).texts := by
  have hp : ∀ e ∈ leaves, ∃ n p, e.1 = .name n :: p := fun e he => by
    obtain ⟨n, v, q, -, -, hp⟩ := hasLeaf_map_iff.1 ((h e.1 e.2).1 he)
    exact ⟨n, q, hp⟩
  obtain ⟨fs, hfs, hsorted, hfind⟩ := insertAll_map hp [] List.Pairwise.nil
  have hstart : insertAll leaves null = insertAll leaves (.map []) := by
    refine insertAll_congr (leaves_ne_nil hf h) (fun e he => ?_) rfl rfl
    obtain ⟨n, p, hn⟩ := hp e he
    exact hn ▸ List.cons_ne_nil _ _
  rw [hstart, hfs, texts_map]
  refine congrArg map (Entries.ext_find? hsorted (List.pairwise_map.2 hs) fun n => ?_)
  rw [hfind n, Entries.find?_map, Entries.find?_nil]
  cases hn : find? es n with
  | none => rw [behind_eq_nil h hn]; rfl
  | some v =>
    have hv := (full_map_iff.1 hf).2 _ (Entries.mem_of_find? hn)
    rw [insertAll?_none (leaves_ne_nil hv (mem_behind_entry h hs hn)), ih n v hn]
    rfl

/-- The leaves of a tree in which nothing is empty give the tree of its texts. -/
theorem insertAll_leaves (hw : v.Ordered) (hf : v.Full)
    (h : ∀ p t, (p, t) ∈ leaves ↔ HasLeaf v p t) : insertAll leaves null = v.texts := by
  induction v using Value.induct generalizing leaves with
  | scalar v s hv =>
    have hs : ∀ e ∈ leaves, e = ([], s) := fun e he => by
      obtain ⟨hp, ht⟩ := (hasLeaf_scalar_iff hv).1 ((h e.1 e.2).1 he)
      exact Prod.ext hp ht
    obtain ⟨e, leaves, rfl⟩ := List.exists_cons_of_ne_nil (leaves_ne_nil hf h)
    obtain rfl := hs e List.mem_cons_self
    rw [texts_scalar hv]
    exact insertAll_text fun e he => hs e (List.mem_cons_of_mem _ he)
  | seq vs ih =>
    have hw := ordered_seq_iff.1 hw
    refine insertAll_leaves_seq hf h fun i hi => ?_
    have hm := List.getElem_mem hi
    exact ih _ hm (hw _ hm) ((full_seq_iff.1 hf).2 _ hm)
      (mem_behind_item h (List.getElem?_eq_getElem hi))
  | map es ih =>
    obtain ⟨hs, hw⟩ := ordered_map_iff.1 hw
    refine insertAll_leaves_map hs hf h fun n v hn => ?_
    have hm := Entries.mem_of_find? hn
    exact ih _ hm (hw _ hm) ((full_map_iff.1 hf).2 _ hm) (mem_behind_entry h hs hn)

end

end Value

end ConfigGraph
