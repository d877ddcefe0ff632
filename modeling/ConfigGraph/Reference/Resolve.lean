import ConfigGraph.Reference.Tag
import ConfigGraph.Store.Basic

/-!
# Resolving references

A reference stands for the stored text of its key, with the references in it resolved in turn, or
for its default where nothing is stored. The keys on the way are remembered, so that one that is
met again is reported as a cycle; each key that is stored can be entered once on a way, and between
two such steps the text gets shorter, which is why resolving ends.
-/

namespace ConfigGraph.Reference

/-- The ways to write a stored key in a reference, and the root key. -/
def readable (store : Store) : List Text :=
  ['$'] :: store.keys.flatMap fun k => [k, '$' :: '.' :: k]

/-- How many keys can still be entered. -/
def unread (store : Store) (chain : List Text) : Nat :=
  ((readable store).filter fun k => !chain.contains k).length

theorem mem_keys_of_find? {es : Entries Text} {k t : Text} (h : es.find? k = some t) :
    k ∈ es.map (·.1) := by
  induction es with
  | nil => simp at h
  | cons e rest ih =>
    obtain ⟨n, b⟩ := e
    simp only [Entries.find?] at h
    split at h
    · rename_i hn; simp [hn]
    · exact List.mem_cons_of_mem _ (ih h)

/-- A key with a stored text is readable. -/
theorem mem_readable {store : Store} {key raw : Text} (h : store.get? key = some raw) :
    key ∈ readable store := by
  have hk := mem_keys_of_find? h
  simp only [readable, List.mem_cons, List.mem_flatMap, List.not_mem_nil, or_false]
  unfold Key.normalize at hk
  split at hk
  · exact .inl rfl
  · exact .inr ⟨_, hk, .inr rfl⟩
  · exact .inr ⟨_, hk, .inl rfl⟩

theorem length_filter_lt {l : List Text} {p q : Text → Bool} (hpq : ∀ x, q x = true → p x = true)
    {y : Text} (hy : y ∈ l) (hp : p y = true) (hq : q y = false) :
    (l.filter q).length < (l.filter p).length := by
  induction l with
  | nil => simp at hy
  | cons x l ih =>
    have hle : (l.filter q).length ≤ (l.filter p).length := by
      rw [← List.countP_eq_length_filter, ← List.countP_eq_length_filter]
      exact List.countP_mono_left fun z _ => hpq z
    simp only [List.filter_cons]
    rcases List.mem_cons.1 hy with rfl | hy
    · simp only [hp, hq, if_true, List.length_cons]
      simp only [Bool.false_eq_true, if_false]
      omega
    · have := ih hy
      by_cases hqx : q x = true
      · simp [hqx, hpq x hqx, this]
      · by_cases hpx : p x = true
        · simp only [hqx, hpx, if_true, Bool.false_eq_true, if_false, List.length_cons]; omega
        · simp [hqx, hpx, this]

theorem unread_mono (store : Store) (chain : List Text) (key : Text) :
    unread store (chain ++ [key]) ≤ unread store chain := by
  unfold unread
  rw [← List.countP_eq_length_filter, ← List.countP_eq_length_filter]
  refine List.countP_mono_left fun x _ h => ?_
  simp only [List.contains_eq_mem, List.mem_append, Bool.not_eq_true', decide_eq_false_iff_not,
    not_or] at h ⊢
  exact h.1

/-- Entering a stored key that is not on the way leaves fewer keys to enter. -/
theorem unread_lt {store : Store} {chain : List Text} {key raw : Text}
    (h : store.get? key = some raw) (hc : ¬ key ∈ chain) :
    unread store (chain ++ [key]) < unread store chain := by
  refine length_filter_lt (fun x hx => ?_) (mem_readable h) (by simpa using hc) (by simp)
  simp only [List.contains_eq_mem, List.mem_append, Bool.not_eq_true', decide_eq_false_iff_not,
    not_or] at hx ⊢
  exact hx.1

set_option linter.unusedVariables false in
mutual

/-- The text `done`, which has been resolved already, and behind it `rest` with its references
resolved; `chain` holds the keys being expanded. An escaped opener that comes before any reference is
copied without its escape. -/
def expandFrom (store : Store) (chain : List Text) (done rest : Text) : Except ConfigError Text :=
  match he : escapeFirst? rest with
  | .error e => .error e
  | .ok (some (before, behind)) => expandFrom store chain (done ++ before ++ ['$', '{']) behind
  | .ok none =>
    match hf : find? rest with
    | .error e => .error e
    | .ok none => .ok (done ++ rest)
    | .ok (some (a, b)) =>
      match ht : Tag.parse (slice rest a b) with
      | .error e => .error e
      | .ok tag =>
        match tagValue store chain tag with
        | .error e => .error e
        | .ok none => .error (.referenceNotFound tag.key)
        | .ok (some value) =>
          expandFrom store chain (done ++ rest.take a ++ value) (rest.drop (b + 1))
termination_by (unread store chain, rest.length, 0)
decreasing_by
  · exact .right _ (.left _ _ (length_of_escapeFirst? he))
  · have := find?_bounds hf
    have := Tag.size_lt_of_parse ht
    rw [length_slice (by omega)] at this
    exact .right _ (.left _ _ (by omega))
  · have := find?_bounds hf
    exact .right _ (.left _ _ (by simp only [List.length_drop]; omega))

/-- What a tag stands for; nothing where its key is absent and there is no default. -/
def tagValue (store : Store) (chain : List Text) (tag : Tag) :
    Except ConfigError (Option Text) :=
  if tag.key.isEmpty then
    match hd : tag.default? with
    | none => .ok none
    | some d => (expandFrom store chain [] d).map some
  else if hc : tag.key ∈ chain then .error (.referenceCycle (chain ++ [tag.key]))
  else
    match hg : store.get? tag.key with
    | some raw => (expandFrom store (chain ++ [tag.key]) [] raw).map some
    | none =>
      match hd : tag.default? with
      | none => .ok none
      | some d => (expandFrom store (chain ++ [tag.key]) [] d).map some
termination_by (unread store chain, tag.size, 1)
decreasing_by
  · simp only [Tag.size, hd, Option.getD_some]
    exact .right _ (.right _ (by omega))
  · exact .left _ _ (unread_lt hg hc)
  · rcases Nat.lt_or_eq_of_le (unread_mono store chain tag.key) with h | h
    · exact .left _ _ h
    · rw [h]
      simp only [Tag.size, hd, Option.getD_some]
      exact .right _ (.right _ (by omega))

end

/-- The text with its references resolved; `chain` holds the keys being expanded. -/
def expand (store : Store) (chain : List Text) (s : Text) : Except ConfigError Text :=
  expandFrom store chain [] s

/-- The text with its references resolved. -/
def resolve (store : Store) (s : Text) : Except ConfigError Text :=
  expand store [] s

end ConfigGraph.Reference
