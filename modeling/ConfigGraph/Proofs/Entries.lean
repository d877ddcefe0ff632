import ConfigGraph.Entries

/-!
# Sorted entries are what is found in them

Where the names ascend, an entry is found by its name exactly when it is there (`find?_eq_some_iff`),
so two such lists in which the same is found are equal (`ext_find?`).
-/

namespace ConfigGraph.Entries

variable {α : Type} {es fs : Entries α}

theorem Sorted.tail {e : Text × α} (h : Sorted (e :: es)) : Sorted es :=
  (List.pairwise_cons.1 h).2

theorem Sorted.ne {e f : Text × α} (h : Sorted (e :: es)) (hf : f ∈ es) : e.1 ≠ f.1 := by
  intro he
  have hb := (List.pairwise_cons.1 h).1 f hf
  rw [he, Text.before_irrefl] at hb
  cases hb

theorem mem_of_find? {q : Text} {a : α} (h : find? es q = some a) : (q, a) ∈ es := by
  induction es with
  | nil => simp at h
  | cons e es ih =>
    obtain ⟨n, b⟩ := e
    simp only [find?] at h
    split at h
    · rename_i hn
      subst hn
      cases h
      exact List.mem_cons_self
    · exact List.mem_cons_of_mem _ (ih h)

theorem find?_eq_some_iff (hs : Sorted es) {q : Text} {a : α} :
    find? es q = some a ↔ (q, a) ∈ es := by
  refine ⟨mem_of_find?, fun h => ?_⟩
  induction es with
  | nil => simp at h
  | cons e es ih =>
    obtain ⟨n, b⟩ := e
    simp only [find?]
    rcases List.mem_cons.1 h with h | h
    · cases h
      rw [if_pos rfl]
    · rw [if_neg (hs.ne h), ih hs.tail h]

theorem find?_eq_none_iff {q : Text} : find? es q = none ↔ ∀ a, (q, a) ∉ es := by
  induction es with
  | nil => simp
  | cons e es ih =>
    obtain ⟨n, b⟩ := e
    simp only [find?]
    split
    · rename_i hn
      subst hn
      simp only [reduceCtorEq, List.mem_cons, false_iff]
      exact fun h => h b (.inl rfl)
    · rename_i hn
      have hq : q ≠ n := fun e => hn e.symm
      simp only [ih, List.mem_cons, Prod.mk.injEq, hq, false_and, false_or]

theorem find?_filter (p : Text → Bool) (q : Text) :
    find? (es.filter fun e => p e.1) q = if p q then find? es q else none := by
  induction es with
  | nil => simp
  | cons e es ih =>
    obtain ⟨n, b⟩ := e
    by_cases hn : n = q
    · subst hn
      by_cases hp : p n = true
      · simp only [List.filter_cons, hp, if_true, find?]
      · simp only [List.filter_cons, hp, Bool.false_eq_true, if_false, ih]
    · by_cases hp : p n = true
      · simp only [List.filter_cons, hp, if_true, find?, hn, if_false, ih]
      · simp only [List.filter_cons, hp, Bool.false_eq_true, if_false, ih, find?, hn]

/-- Sorted entries are determined by which there are. -/
theorem ext_mem (hes : Sorted es) (hfs : Sorted fs) (h : ∀ e, e ∈ es ↔ e ∈ fs) : es = fs := by
  have hanti : ∀ a b : Text × α, Text.before a.1 b.1 = true → Text.before b.1 a.1 = true → a = b := by
    intro a b hab hba
    have := Text.before_trans hab hba
    rw [Text.before_irrefl] at this
    cases this
  have hnodup : ∀ {es : Entries α}, Sorted es → es.Nodup := fun hs =>
    hs.imp fun {a b} hb e => by rw [e, Text.before_irrefl] at hb; cases hb
  have hp : es.Perm fs := (List.perm_ext_iff_of_nodup (hnodup hes) (hnodup hfs)).2 h
  exact hp.eq_of_pairwise (fun a b _ _ => hanti a b) hes hfs

/-- Sorted entries are determined by what is found in them. -/
theorem ext_find? (hes : Sorted es) (hfs : Sorted fs) (h : ∀ q, find? es q = find? fs q) :
    es = fs :=
  ext_mem hes hfs fun e => by
    rw [← find?_eq_some_iff hes, ← find?_eq_some_iff hfs, h]

theorem find?_map {β : Type} (f : α → β) (es : Entries α) (q : Text) :
    find? (es.map fun e => (e.1, f e.2)) q = (find? es q).map f := by
  induction es with
  | nil => rfl
  | cons e es ih =>
    simp only [List.map_cons, find?, ih]
    split <;> rfl

theorem eq_of_nodup (hd : (es.map (·.1)).Nodup) {n : Text} {a b : α} (ha : (n, a) ∈ es)
    (hb : (n, b) ∈ es) : a = b := by
  induction es with
  | nil => exact absurd ha List.not_mem_nil
  | cons e es ih =>
    obtain ⟨he, hd⟩ := List.nodup_cons.1 hd
    have hn : ∀ {c}, (e.1, c) ∉ es := fun {c} hc => he (List.mem_map.2 ⟨(e.1, c), hc, rfl⟩)
    rcases List.mem_cons.1 ha with rfl | ha'
    · rcases List.mem_cons.1 hb with hb | hb
      · exact (Prod.mk.inj hb).2.symm
      · exact absurd hb hn
    · rcases List.mem_cons.1 hb with rfl | hb'
      · exact absurd ha' hn
      · exact ih hd ha' hb'

/-! ## Entries put in order -/

theorem sorted_ofList (es : List (Text × α)) : Sorted (ofList es) := by
  have h : ∀ acc : Entries α, Sorted acc → Sorted (es.foldl (fun acc e => put e.1 e.2 acc) acc) := by
    induction es with
    | nil => exact fun acc hacc => hacc
    | cons e es ih => exact fun acc hacc => ih _ (sorted_put hacc _ _)
  exact h [] List.Pairwise.nil

/-- Putting entries in order adds none. -/
theorem mem_of_mem_ofList {es : List (Text × α)} {e : Text × α} (h : e ∈ ofList es) : e ∈ es := by
  have hfold : ∀ acc : Entries α, e ∈ es.foldl (fun acc e => put e.1 e.2 acc) acc →
      e ∈ es ∨ e ∈ acc := by
    clear h
    induction es with
    | nil => exact fun acc he => .inr he
    | cons f es ih =>
      intro acc he
      rcases ih _ he with he | he
      · exact .inl (List.mem_cons_of_mem f he)
      · rcases mem_put he with rfl | he
        · exact .inl List.mem_cons_self
        · exact .inr he
  exact (hfold [] h).resolve_right List.not_mem_nil

theorem mem_put_iff (hs : Sorted es) {n : Text} {a : α} {e : Text × α} :
    e ∈ put n a es ↔ e = (n, a) ∨ e.1 ≠ n ∧ e ∈ es := by
  obtain ⟨q, b⟩ := e
  rw [← find?_eq_some_iff (sorted_put hs n a), find?_put, Prod.mk.injEq]
  split
  · rename_i hq
    simp only [hq, Option.some.injEq, true_and, ne_eq, not_true_eq_false, false_and, or_false,
      eq_comm]
  · rename_i hq
    simp only [hq, false_and, false_or, ne_eq, not_false_eq_true, true_and, find?_eq_some_iff hs]

/-- With distinct names nothing is lost when entries are put in order. -/
theorem mem_ofList {es : List (Text × α)} (hd : (es.map (·.1)).Nodup) {e : Text × α} :
    e ∈ ofList es ↔ e ∈ es := by
  have h : ∀ acc : Entries α, Sorted acc → (e ∈ es.foldl (fun acc e => put e.1 e.2 acc) acc ↔
      e ∈ es ∨ e.1 ∉ es.map (·.1) ∧ e ∈ acc) := by
    induction es with
    | nil => intro acc _; simp
    | cons f es ih =>
      intro acc hacc
      simp only [List.map_cons, List.nodup_cons] at hd
      rw [List.foldl_cons, ih hd.2 _ (sorted_put hacc _ _), mem_put_iff hacc, List.mem_cons,
        List.map_cons, List.mem_cons]
      constructor
      · rintro (h | ⟨hn, h | ⟨hf, h⟩⟩)
        · exact .inl (.inr h)
        · exact .inl (.inl h)
        · exact .inr ⟨fun hm => hm.elim hf hn, h⟩
      · rintro ((rfl | h) | ⟨hn, h⟩)
        · exact .inr ⟨hd.1, .inl rfl⟩
        · exact .inl h
        · exact .inr ⟨fun hm => hn (.inr hm), .inr ⟨fun hf => hn (.inl hf), h⟩⟩
  have hnil := h [] List.Pairwise.nil
  simp only [List.not_mem_nil, and_false, or_false] at hnil
  exact hnil

/-- Sorted entries are put together again from what is found for their names, in any order. -/
theorem ofList_find? (hs : Sorted es) {names : List Text} (hd : names.Nodup)
    (h : ∀ n, n ∈ names ↔ ∃ a, (n, a) ∈ es) (default : α) :
    ofList (names.map fun n => (n, (find? es n).getD default)) = es := by
  refine ext_mem (sorted_ofList _) hs fun e => ?_
  rw [mem_ofList, List.mem_map]
  · constructor
    · rintro ⟨n, hn, rfl⟩
      obtain ⟨a, ha⟩ := (h n).1 hn
      rw [(find?_eq_some_iff hs).2 ha]
      exact ha
    · intro he
      refine ⟨e.1, (h e.1).2 ⟨e.2, he⟩, ?_⟩
      rw [(find?_eq_some_iff hs).2 he]
      rfl
  · rw [List.map_map]
    exact (List.map_id _).symm ▸ hd

end ConfigGraph.Entries
