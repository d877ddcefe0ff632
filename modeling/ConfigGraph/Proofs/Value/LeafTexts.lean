import ConfigGraph.Proofs.Value.Rebuild

/-!
# Which leaves survive in a tree

The texts in a tree are listed with the paths that lead to them (`leafTexts`). A leaf that is inserted
leaves those in place whose paths part from its own at two names or at two numbers, and no others
(`mem_leafTexts_insert`): where a name meets a number, a map gives way to a sequence or the other way
round. So of leaves that are inserted one after the other those survive that no later one displaces
(`perm_survivors`), and where no path ends on another one, all of them do exactly when no two paths clash
(`survivors_eq_self_iff_of_apart`).
-/

namespace ConfigGraph

/-- Whether a step leads into a map. -/
def Segment.isName : Segment → Bool
  | .name _ => true
  | .index _ => false

namespace Path

/-- Two paths part at two different names or at two different numbers. -/
def forks : List Segment → List Segment → Bool
  | a :: p, b :: q => if a = b then forks p q else a.isName == b.isName
  | _, _ => false

/-- Two paths part at a name on the one and a number on the other. -/
def clash : List Segment → List Segment → Bool
  | a :: p, b :: q => if a = b then clash p q else a.isName != b.isName
  | _, _ => false

theorem clash_comm (p q : List Segment) : clash p q = clash q p := by
  induction p generalizing q with
  | nil => cases q <;> rfl
  | cons a p ih =>
    cases q with
    | nil => rfl
    | cons b q =>
      by_cases h : a = b
      · simp only [clash, h, if_true, ih]
      · simp only [clash, h, Ne.symm h, if_false, bne_comm]

theorem clash_self (p : List Segment) : clash p p = false := by
  induction p with
  | nil => rfl
  | cons a p ih => simpa only [clash, if_true] using ih

theorem forks_self (p : List Segment) : forks p p = false := by
  induction p with
  | nil => rfl
  | cons a p ih => simpa only [forks, if_true] using ih

/-- Two paths of which neither ends on the other part in one of the two ways. -/
theorem forks_eq_not_clash {p q : List Segment} (hpq : ¬ p <+: q) (hqp : ¬ q <+: p) :
    forks p q = !clash p q := by
  induction p generalizing q with
  | nil => exact absurd List.nil_prefix hpq
  | cons a p ih =>
    cases q with
    | nil => exact absurd List.nil_prefix hqp
    | cons b q =>
      by_cases h : a = b
      · subst h
        simp only [forks, clash, if_true]
        exact ih (fun hp => hpq (List.cons_prefix_cons.2 ⟨rfl, hp⟩))
          fun hp => hqp (List.cons_prefix_cons.2 ⟨rfl, hp⟩)
      · simp only [forks, clash, h, if_false, bne, Bool.not_not]

end Path

namespace Value

open Entries (find?)

/-- Leaves with one step in front of their paths. -/
def under (step : Segment) (leaves : List (List Segment × Text)) : List (List Segment × Text) :=
  leaves.map fun e => (step :: e.1, e.2)

mutual

/-- The texts in a tree, with the paths that lead to them. -/
def leafTexts : Value → List (List Segment × Text)
  | .text t => [([], t)]
  | .map es => leafTextsEntries es
  | .seq vs => leafTextsItems 0 vs
  | _ => []

def leafTextsEntries : List (Text × Value) → List (List Segment × Text)
  | [] => []
  | (n, v) :: rest => under (.name n) (leafTexts v) ++ leafTextsEntries rest

def leafTextsItems (i : Nat) : List Value → List (List Segment × Text)
  | [] => []
  | v :: rest => under (.index i) (leafTexts v) ++ leafTextsItems (i + 1) rest

end

/-- The part of a tree behind a step, null where there is none. -/
def child (v : Value) : Segment → Value
  | .name n => (find? v.entries n).getD null
  | .index i => v.items[i]?.getD null

section

variable {v : Value} {step step' : Segment} {p q : List Segment} {t u : Text}
  {leaves : List (List Segment × Text)}

theorem mem_under : (q, u) ∈ under step leaves ↔ ∃ p, q = step :: p ∧ (p, u) ∈ leaves := by
  simp only [under, List.mem_map, Prod.mk.injEq, Prod.exists]
  constructor
  · rintro ⟨p, t, h, rfl, rfl⟩
    exact ⟨p, rfl, h⟩
  · rintro ⟨p, rfl, h⟩
    exact ⟨p, u, h, rfl, rfl⟩

theorem leafTexts_map (es : List (Text × Value)) :
    (map es).leafTexts = es.flatMap fun e => under (.name e.1) e.2.leafTexts := by
  have h : leafTextsEntries es = es.flatMap fun e => under (.name e.1) e.2.leafTexts := by
    induction es with
    | nil => rfl
    | cons e es ih => rw [leafTextsEntries, ih, List.flatMap_cons]
  rw [leafTexts, h]

theorem leafTexts_seq (vs : List Value) :
    (seq vs).leafTexts = vs.zipIdx.flatMap fun e => under (.index e.2) e.1.leafTexts := by
  have h : ∀ i, leafTextsItems i vs =
      (vs.zipIdx i).flatMap fun e => under (.index e.2) e.1.leafTexts := by
    induction vs with
    | nil => exact fun i => rfl
    | cons v vs ih => exact fun i => by rw [leafTextsItems, ih, List.zipIdx_cons, List.flatMap_cons]
  rw [leafTexts, h]

theorem mem_leafTexts_nil : ([], u) ∈ v.leafTexts ↔ v = .text u := by
  cases v with
  | text t => simp [leafTexts, eq_comm]
  | map es => simp [leafTexts_map, mem_under]
  | seq vs => simp [leafTexts_seq, mem_under]
  | _ => simp [leafTexts]

theorem mem_leafTexts_map {es : List (Text × Value)} :
    (step :: p, u) ∈ (map es).leafTexts ↔
      ∃ e ∈ es, step = .name e.1 ∧ (p, u) ∈ e.2.leafTexts := by
  simp only [leafTexts_map, List.mem_flatMap, mem_under, List.cons.injEq]
  refine exists_congr fun e => and_congr_right fun _ => ?_
  constructor
  · rintro ⟨_, ⟨hn, rfl⟩, hp⟩
    exact ⟨hn, hp⟩
  · rintro ⟨hn, hp⟩
    exact ⟨p, ⟨hn, rfl⟩, hp⟩

theorem mem_leafTexts_seq {vs : List Value} :
    (step :: p, u) ∈ (seq vs).leafTexts ↔
      ∃ i w, vs[i]? = some w ∧ step = .index i ∧ (p, u) ∈ w.leafTexts := by
  simp only [leafTexts_seq, List.mem_flatMap, mem_under, List.cons.injEq,
    List.mem_zipIdx_iff_getElem?]
  constructor
  · rintro ⟨e, he, _, ⟨hi, rfl⟩, hp⟩
    exact ⟨e.2, e.1, he, hi, hp⟩
  · rintro ⟨i, w, hw, hi, hp⟩
    exact ⟨(w, i), hw, p, ⟨hi, rfl⟩, hp⟩

/-- A text behind a step is one of the part that the step leads to. -/
theorem mem_leafTexts_cons (hv : v.Ordered) :
    (step :: p, u) ∈ v.leafTexts ↔ (p, u) ∈ (v.child step).leafTexts := by
  have hnull : (p, u) ∉ null.leafTexts := List.not_mem_nil
  cases v with
  | map es =>
    obtain ⟨hs, -⟩ := ordered_map_iff.1 hv
    rw [mem_leafTexts_map]
    cases step with
    | name n =>
      rw [child, entries]
      constructor
      · rintro ⟨⟨m, w⟩, he, hn, hp⟩
        cases hn
        rwa [(Entries.find?_eq_some_iff hs).2 he, Option.getD_some]
      · intro hp
        cases hn : find? es n with
        | none => rw [hn] at hp; exact absurd hp hnull
        | some w =>
          rw [hn] at hp
          exact ⟨(n, w), Entries.mem_of_find? hn, rfl, hp⟩
    | index i =>
      refine iff_of_false ?_ hnull
      rintro ⟨_, -, h, -⟩
      cases h
  | seq vs =>
    rw [mem_leafTexts_seq]
    cases step with
    | name n =>
      refine iff_of_false ?_ hnull
      rintro ⟨_, _, -, h, -⟩
      cases h
    | index i =>
      rw [child, items]
      constructor
      · rintro ⟨_, w, hw, hi, hp⟩
        cases hi
        rwa [hw, Option.getD_some]
      · intro hp
        cases hi : vs[i]? with
        | none => rw [hi] at hp; exact absurd hp hnull
        | some w =>
          rw [hi] at hp
          exact ⟨i, w, hi, rfl, hp⟩
  | _ => cases step <;> simp [leafTexts, child, entries, items]

/-! ## Inserting a leaf -/

section

variable {maps : List (Text × Value) → Prop} {seqs : List Value → Prop}

theorem Each.entries (hnil : maps []) (hv : Each maps seqs v) :
    maps v.entries ∧ ∀ e ∈ v.entries, Each maps seqs e.2 := by
  cases v with
  | map es => exact each_map_iff.1 hv
  | _ => exact ⟨hnil, fun e he => absurd he List.not_mem_nil⟩

theorem Each.items (hnil : seqs []) (hv : Each maps seqs v) :
    seqs v.items ∧ ∀ w ∈ v.items, Each maps seqs w := by
  cases v with
  | seq vs => exact each_seq_iff.1 hv
  | _ => exact ⟨hnil, fun w hw => absurd hw List.not_mem_nil⟩

variable (hmaps : maps []) (hseqs : seqs [])

include hmaps hseqs

theorem Each.child (hv : Each maps seqs v) (step : Segment) : Each maps seqs (v.child step) := by
  have hnull : Each maps seqs null := trivial
  cases step with
  | name n =>
    rw [Value.child]
    cases hn : find? v.entries n with
    | none => exact hnull
    | some w => exact (hv.entries hmaps).2 _ (Entries.mem_of_find? hn)
  | index i =>
    rw [Value.child]
    cases hi : v.items[i]? with
    | none => exact hnull
    | some w => exact (hv.items hseqs).2 _ (List.mem_of_getElem? hi)

/-- Inserting a leaf keeps what holds for each map and each sequence, if putting an entry into a map
keeps it, and so does changing an item of a sequence that is long enough for the path. -/
theorem Each.insert (hput : ∀ es n w, maps es → maps (Entries.put n w es))
    (hpad : ∀ vs i f, .index i ∈ p → seqs vs → seqs ((padded i vs).modify i f))
    (hv : Each maps seqs v) : Each maps seqs (insert (.text t) p v) := by
  induction p generalizing v with
  | nil => exact trivial
  | cons step p ih =>
    have ih := fun {v} => ih (v := v) fun vs i f hi => hpad vs i f (List.mem_cons_of_mem _ hi)
    cases step with
    | name n =>
      obtain ⟨hes, hparts⟩ := hv.entries hmaps
      refine each_map_iff.2 ⟨hput _ _ _ hes, fun e he => ?_⟩
      rcases Entries.mem_put he with rfl | he
      · exact ih (hv.child hmaps hseqs (.name n))
      · exact hparts e he
    | index i =>
      obtain ⟨hvs, hparts⟩ := hv.items hseqs
      refine each_seq_iff.2 ⟨hpad _ _ _ List.mem_cons_self hvs, fun w hw => ?_⟩
      obtain ⟨j, hj⟩ := List.mem_iff_getElem?.1 hw
      rw [List.getElem?_modify] at hj
      obtain ⟨a, ha, rfl⟩ := Option.map_eq_some_iff.1 hj
      have ha : Each maps seqs a := by
        rcases List.mem_append.1 (List.mem_of_getElem? ha) with ha | ha
        · exact hparts a ha
        · exact (List.mem_replicate.1 ha).2 ▸ trivial
      split
      · exact ih ha
      · exact ha

end

theorem ordered_child (hv : v.Ordered) (step : Segment) : (v.child step).Ordered :=
  Each.child List.Pairwise.nil trivial hv step

theorem ordered_insert (hv : v.Ordered) : (insert (.text t) p v).Ordered :=
  Each.insert List.Pairwise.nil trivial (fun _ n w hs => Entries.sorted_put hs n w)
    (fun _ _ _ _ _ => trivial) hv

/-- Inserting a leaf inserts it into the part that its first step leads to, and keeps the other parts
that a step of the same kind leads to. -/
theorem child_insert : (insert (.text t) (step :: p) v).child step' =
    if step' = step then insert (.text t) p (v.child step)
    else if step'.isName = step.isName then v.child step' else null := by
  cases step with
  | name n =>
    cases step' with
    | name m =>
      simp only [insert, child, entries, Entries.alter, Entries.find?_put, Segment.name.injEq,
        Segment.isName, if_true]
      split <;> rfl
    | index j => simp [insert, child, items, Segment.isName]
  | index i =>
    cases step' with
    | name m => simp [insert, child, entries, Segment.isName]
    | index j =>
      simp only [insert, child, items, getD_modify_padded, Segment.index.injEq, Segment.isName, if_true]

/-- A leaf that is inserted is there then, and of those from before the ones whose paths fork from its
own. -/
theorem mem_leafTexts_insert (hv : v.Ordered) :
    (q, u) ∈ (insert (.text t) p v).leafTexts ↔
      (q, u) = (p, t) ∨ (q, u) ∈ v.leafTexts ∧ Path.forks p q = true := by
  induction p generalizing v q with
  | nil => simp [insert, leafTexts, Path.forks]
  | cons step p ih =>
    cases q with
    | nil =>
      rw [mem_leafTexts_nil]
      cases step <;> simp [insert, Path.forks]
    | cons step' q =>
      rw [mem_leafTexts_cons (ordered_insert hv), child_insert]
      by_cases h : step' = step
      · subst h
        rw [if_pos rfl, ih (ordered_child hv _), mem_leafTexts_cons hv]
        simp only [Path.forks, if_true, Prod.mk.injEq, List.cons.injEq, true_and]
      · have hne : ¬ (step' :: q, u) = (step :: p, t) := fun e => h (by cases e; rfl)
        rw [if_neg h, Path.forks, if_neg (Ne.symm h), beq_iff_eq, iff_false_intro hne, false_or]
        by_cases hk : step'.isName = step.isName
        · rw [if_pos hk, mem_leafTexts_cons hv, iff_true_intro hk.symm, and_true]
        · rw [if_neg hk]
          exact iff_of_false List.not_mem_nil fun hh => hk hh.2.symm

/-! ## Each path once -/

theorem nodup_under (h : leaves.Nodup) : (under step leaves).Nodup := by
  refine List.pairwise_map.2 (h.imp fun hne e => hne ?_)
  simp only [Prod.mk.injEq, List.cons.injEq, true_and] at e
  exact Prod.ext e.1 e.2

theorem disjoint_under (h : step ≠ step') {leaves' : List (List Segment × Text)} :
    ∀ e ∈ under step leaves, ∀ f ∈ under step' leaves', e ≠ f := by
  rintro ⟨_, t⟩ he _ hf rfl
  obtain ⟨p, rfl, -⟩ := mem_under.1 he
  obtain ⟨q, hq, -⟩ := mem_under.1 hf
  exact h (List.cons.inj hq).1

theorem nodup_leafTexts (hv : v.Ordered) : v.leafTexts.Nodup := by
  induction v using Value.induct with
  | scalar v t h =>
    cases v with
    | map | seq => cases h
    | _ => simp [leafTexts]
  | seq vs ih =>
    rw [leafTexts_seq]
    refine List.pairwise_flatMap.2 ⟨fun e he => ?_, (pairwise_zipIdx vs).imp fun {a b} hab => ?_⟩
    · have hm := List.mem_of_getElem? (List.mem_zipIdx_iff_getElem?.1 he)
      exact nodup_under (ih e.1 hm (ordered_seq_iff.1 hv _ hm))
    · exact disjoint_under fun e => hab (Segment.index.inj e)
  | map es ih =>
    obtain ⟨hs, hes⟩ := ordered_map_iff.1 hv
    rw [leafTexts_map]
    refine List.pairwise_flatMap.2 ⟨fun e he => nodup_under (ih e he (hes e he)), ?_⟩
    refine hs.imp fun {a b} hab => disjoint_under fun e => ?_
    rw [Segment.name.inj e, Text.before_irrefl] at hab
    cases hab

end

/-! ## Inserting leaves one after the other -/

/-- The leaves that no later one displaces. -/
def survivors : List (List Segment × Text) → List (List Segment × Text)
  | [] => []
  | e :: rest =>
    if rest.all fun f => Path.forks f.1 e.1 then e :: survivors rest else survivors rest

section

variable {leaves : List (List Segment × Text)}

theorem survivors_sublist (leaves : List (List Segment × Text)) : (survivors leaves).Sublist leaves := by
  induction leaves with
  | nil => exact .slnil
  | cons e rest ih =>
    rw [survivors]
    split
    · exact ih.cons_cons e
    · exact ih.cons e

/-- All the leaves survive when each two of them fork. -/
theorem survivors_eq_self_iff :
    survivors leaves = leaves ↔ leaves.Pairwise fun e f => Path.forks f.1 e.1 = true := by
  induction leaves with
  | nil => exact iff_of_true rfl .nil
  | cons e rest ih =>
    rw [survivors, List.pairwise_cons, ← List.all_eq_true]
    split
    · rename_i hall
      rw [List.cons_inj_right, ih, iff_true_intro hall, true_and]
    · rename_i hall
      refine iff_of_false (fun h => ?_) fun h => hall h.1
      have hlen := (survivors_sublist rest).length_le
      rw [h, List.length_cons] at hlen
      exact Nat.not_succ_le_self _ hlen

theorem ordered_insertAll {v : Value} (hv : v.Ordered) : (insertAll leaves v).Ordered :=
  List.foldlRecOn leaves _ hv fun _ hw _ _ => ordered_insert hw

theorem mem_leafTexts_insertAll {v : Value} (hv : v.Ordered) {e : List Segment × Text} :
    e ∈ (insertAll leaves v).leafTexts ↔
      e ∈ survivors leaves ∨ e ∈ v.leafTexts ∧ ∀ f ∈ leaves, Path.forks f.1 e.1 = true := by
  induction leaves generalizing v with
  | nil => simp [insertAll, survivors]
  | cons f rest ih =>
    have hcons : insertAll (f :: rest) v = insertAll rest (insert (.text f.2) f.1 v) := rfl
    rw [hcons, ih (ordered_insert hv), mem_leafTexts_insert hv, List.forall_mem_cons, survivors]
    have hself : (∀ g ∈ rest, Path.forks g.1 f.1 = true) ↔
        (rest.all fun g => Path.forks g.1 f.1) = true := List.all_eq_true.symm
    constructor
    · rintro (h | ⟨heq | ⟨h, hf⟩, hrest⟩)
      · left
        split
        · exact List.mem_cons_of_mem _ h
        · exact h
      · obtain rfl : e = f := heq
        left
        rw [if_pos (hself.1 hrest)]
        exact List.mem_cons_self
      · exact .inr ⟨h, hf, hrest⟩
    · rintro (h | ⟨h, hf, hrest⟩)
      · split at h
        · rename_i hall
          rcases List.mem_cons.1 h with rfl | h
          · exact .inr ⟨.inl rfl, hself.2 hall⟩
          · exact .inl h
        · exact .inl h
      · exact .inr ⟨.inr ⟨h, hf⟩, hrest⟩

theorem nodup_survivors (leaves : List (List Segment × Text)) : (survivors leaves).Nodup := by
  induction leaves with
  | nil => exact .nil
  | cons e rest ih =>
    rw [survivors]
    split
    · rename_i hall
      refine List.nodup_cons.2 ⟨fun he => ?_, ih⟩
      -- no path forks from itself
      have hself := List.all_eq_true.1 hall e ((survivors_sublist rest).subset he)
      rw [Path.forks_self] at hself
      cases hself
    · exact ih

/-- The texts in a tree into which leaves have been inserted are those that survive. -/
theorem perm_survivors (leaves : List (List Segment × Text)) :
    (insertAll leaves (.map [])).leafTexts.Perm (survivors leaves) := by
  have hnil : (map []).Ordered := ⟨List.Pairwise.nil, trivial⟩
  refine (List.perm_ext_iff_of_nodup (nodup_leafTexts (ordered_insertAll hnil))
    (nodup_survivors leaves)).2 fun e => ?_
  rw [mem_leafTexts_insertAll hnil]
  exact or_iff_left fun h => List.not_mem_nil h.1

/-- Of leaves whose paths do not end on each other all survive when no two clash. -/
theorem survivors_eq_self_iff_of_apart
    (h : leaves.Pairwise fun e f => ¬ e.1 <+: f.1 ∧ ¬ f.1 <+: e.1) :
    survivors leaves = leaves ↔ ∀ e ∈ leaves, ∀ f ∈ leaves, Path.clash e.1 f.1 = false := by
  have hforks : ∀ {e f : List Segment × Text}, ¬ e.1 <+: f.1 ∧ ¬ f.1 <+: e.1 →
      (Path.forks f.1 e.1 = true ↔ Path.clash e.1 f.1 = false) := by
    intro e f hef
    rw [Path.forks_eq_not_clash hef.2 hef.1, Path.clash_comm, Bool.not_eq_true']
  rw [survivors_eq_self_iff]
  constructor
  · intro hall
    have hclash := (h.and hall).imp fun {e f} hef => (hforks hef.1).1 hef.2
    refine hclash.forall_of_forall_of_flip (fun e _ => Path.clash_self e.1) (hclash.imp fun hef => ?_)
    rw [flip, Path.clash_comm]
    exact hef
  · exact fun hall => h.imp_of_mem fun he hf hef => (hforks hef).2 (hall _ he _ hf)

end

end Value

end ConfigGraph
