import ConfigGraph.Proofs.Reference.Loop

/-!
# Expanding references

A text is expanded at its first reference (`first?`, `expand_eq`), and a reference by expanding the
text that it stands for (`Tag.content?`, `tagValue_eq`). The calls that are made on the way (`Calls`)
come to an end (`wellFounded_calls`), so that what holds of a text if it holds of those that its
expansion calls for holds of every text (`expand_induct`).
-/

namespace ConfigGraph

/-- The text that a tag stands for, before the references in it are resolved: the stored text of its
key, or else its default. The empty key is not looked up. -/
def Tag.content? (store : Store) (tag : Tag) : Option Text :=
  if tag.key = [] then tag.default? else (store.get? tag.key).or tag.default?

/-- A tag closes a cycle: its key is being expanded. The empty key is not remembered. -/
structure Tag.Closes (tag : Tag) (chain : List Text) : Prop where
  ne_nil : tag.key ≠ []
  mem : tag.key ∈ chain

theorem Tag.closes_iff (tag : Tag) (chain : List Text) :
    (!tag.key.isEmpty && chain.contains tag.key) = true ↔ tag.Closes chain := by
  rw [Bool.and_eq_true, Bool.not_eq_true', List.isEmpty_eq_false_iff, List.contains_iff_mem]
  exact ⟨fun h => ⟨h.1, h.2⟩, fun h => ⟨h.ne_nil, h.mem⟩⟩

instance (tag : Tag) (chain : List Text) : Decidable (tag.Closes chain) :=
  decidable_of_iff _ (tag.closes_iff chain)

namespace Reference

/-- The keys that are being expanded inside of a reference; the empty key is not remembered. -/
def enter (chain : List Text) (key : Text) : List Text :=
  if key = [] then chain else chain ++ [key]

/-- What is to be expanded, inside of the expansions of the keys in a chain. -/
inductive Call where
  | text (chain : List Text) (s : Text)
  | reference (chain : List Text) (tag : Tag)

namespace Call

/-- What comes of a call; nothing where a reference has neither a stored text nor a default. -/
def outcome (store : Store) : Call → Except ConfigError (Option Text)
  | text chain s => (expand store chain s).map some
  | reference chain tag => tagValue store chain tag

/-- What comes of a call when `answer` is what comes of the calls that it makes. -/
def body (store : Store) (answer : Call → Except ConfigError (Option Text)) :
    Call → Except ConfigError (Option Text)
  | text chain s =>
    match first? s with
    | .error e => .error e
    | .ok none => .ok (some (unescape s))
    | .ok (some (before, tag, rest)) =>
      match answer (reference chain tag) with
      | .error e => .error e
      | .ok none => .error (.referenceNotFound tag.key)
      | .ok (some value) =>
        (answer (text chain rest)).map (Option.map fun tail => unescape before ++ value ++ tail)
  | reference chain tag =>
    if tag.Closes chain then .error (.referenceCycle (chain ++ [tag.key]))
    else match tag.content? store with
      | none => .ok none
      | some t => answer (text (enter chain tag.key) t)

/-- How far a call is from the end: how many keys can still be entered, how long the text is, and
whether it is still to be taken out of its reference. -/
def rank (store : Store) : Call → Nat × Nat × Nat
  | text chain s => (unread store chain, s.length, 0)
  | reference chain tag => (unread store chain, tag.size, 1)

end Call

/-- The calls that a call makes: a text calls for its first reference and for what stands behind
it, a reference for its stored text or its default. -/
inductive Calls (store : Store) : Call → Call → Prop where
  | reference {chain : List Text} {s before rest : Text} {tag : Tag}
      (hs : first? s = .ok (some (before, tag, rest))) :
      Calls store (.text chain s) (.reference chain tag)
  | rest {chain : List Text} {s before rest : Text} {tag : Tag}
      (hs : first? s = .ok (some (before, tag, rest))) :
      Calls store (.text chain s) (.text chain rest)
  | content {chain : List Text} {tag : Tag} {t : Text}
      (hc : ¬ tag.Closes chain) (ht : tag.content? store = some t) :
      Calls store (.reference chain tag) (.text (enter chain tag.key) t)

variable {store : Store} {chain : List Text} {s before rest t : Text} {tag : Tag}

/-! ## One step of an expansion -/

/-- A tag whose key is being expanded closes a cycle. Any other stands for what its content expands
to. -/
theorem tagValue_eq (store : Store) (chain : List Text) (tag : Tag) :
    tagValue store chain tag =
      if tag.Closes chain then .error (.referenceCycle (chain ++ [tag.key]))
      else match tag.content? store with
        | none => .ok none
        | some t => (expand store (enter chain tag.key) t).map some := by
  rw [tagValue, Tag.content?, enter]
  by_cases hkey : tag.key = []
  · rw [if_pos (List.isEmpty_iff.2 hkey), if_neg fun h => h.1 hkey, if_pos hkey, if_pos hkey]
    split
    · rename_i hd
      simp only [hd]
    · rename_i hd
      simp only [hd, expand]
  · rw [if_neg fun h => hkey (List.isEmpty_iff.1 h), if_neg hkey, if_neg hkey]
    by_cases hchain : tag.key ∈ chain
    · rw [dif_pos hchain, if_pos ⟨hkey, hchain⟩]
    · rw [dif_neg hchain, if_neg fun h => hchain h.2]
      split
      · rename_i hg
        simp only [hg, Option.some_or, expand]
      · rename_i hg
        simp only [hg, Option.none_or]
        split
        · rename_i hd
          simp only [hd]
        · rename_i hd
          simp only [hd, expand]

/-- A text that is one reference stands for what its tag stands for. -/
theorem expand_reference (hs : first? s = .ok (some ([], tag, []))) :
    expand store chain s = match tagValue store chain tag with
      | .error e => .error e
      | .ok none => .error (.referenceNotFound tag.key)
      | .ok (some value) => .ok value := by
  have hnil : expand store chain [] = .ok [] := by
    rw [expand_eq]
    rfl
  rw [expand_eq, hs]
  dsimp only
  rcases tagValue store chain tag with e | _ | value
  · rfl
  · rfl
  · simp only [hnil, Except.map, unescape, List.nil_append, List.append_nil]

/-! ## Calls -/

theorem enter_eq_append (chain : List Text) (key : Text) :
    enter chain key = chain ++ enter [] key := by
  unfold enter
  split
  · exact (List.append_nil _).symm
  · rfl

/-- What comes of a call is determined by what comes of those that it makes. -/
theorem Call.body_congr {f g : Call → Except ConfigError (Option Text)} {c : Call}
    (h : ∀ c', Calls store c c' → f c' = g c') : c.body store f = c.body store g := by
  cases c with
  | text chain s =>
    simp only [body]
    split
    · rfl
    · rfl
    · rename_i hs
      rw [h _ (.reference hs), h _ (.rest hs)]
  | reference chain tag =>
    simp only [body]
    split
    · rfl
    · rename_i hc
      split
      · rfl
      · rename_i ht
        exact h _ (.content hc ht)

theorem Call.outcome_eq_body (store : Store) (c : Call) :
    c.outcome store = c.body store (outcome store) := by
  cases c with
  | text chain s =>
    rw [outcome, expand_eq, body]
    rcases first? s with e | _ | ⟨before, tag, rest⟩
    · rfl
    · rfl
    · simp only [outcome]
      rcases tagValue store chain tag with e | _ | value
      · rfl
      · rfl
      · cases expand store chain rest <;> rfl
  | reference chain tag => exact tagValue_eq store chain tag

/-- What a tag stands for is stored, or it is a part of the tag. -/
theorem content?_eq_some (ht : tag.content? store = some t) :
    (tag.key ≠ [] ∧ store.get? tag.key = some t) ∨ tag.default? = some t := by
  unfold Tag.content? at ht
  split at ht
  · exact .inr ht
  · rename_i hkey
    exact (Option.or_eq_some_iff.1 ht).imp (⟨hkey, ·⟩) And.right

/-- A call makes only calls that are nearer to the end. -/
theorem wellFounded_calls (store : Store) : WellFounded fun c' c => Calls store c c' := by
  have hwf := (Prod.lex Nat.lt_wfRel (Prod.lex Nat.lt_wfRel Nat.lt_wfRel)).wf
  refine Subrelation.wf ?_ (InvImage.wf (Call.rank store) hwf)
  intro c' c h
  cases h with
  | reference hs => exact .right _ (.left _ _ (length_of_first? hs).1)
  | rest hs => exact .right _ (.left _ _ (length_of_first? hs).2)
  | @content chain tag t hc ht =>
    show Prod.Lex _ _ (unread store (enter chain tag.key), t.length, 0)
      (unread store chain, tag.size, 1)
    rcases content?_eq_some ht with ⟨hkey, hget⟩ | hd
    · rw [enter, if_neg hkey]
      exact .left _ _ (unread_lt hget fun h => hc ⟨hkey, h⟩)
    · have hsize : tag.size = t.length := by rw [Tag.size, hd, Option.getD_some]
      have hle : unread store (enter chain tag.key) ≤ unread store chain := by
        unfold enter
        split
        · exact Nat.le_refl _
        · exact unread_mono store chain tag.key
      rcases Nat.lt_or_eq_of_le hle with h | h
      · exact .left _ _ h
      · rw [h, hsize]
        exact .right _ (.right _ Nat.zero_lt_one)

/-- What holds of a text if it holds of the content of its first reference and of what stands behind
this holds of every text. -/
theorem expand_induct {P : List Text → Text → Prop} (store : Store)
    (step : ∀ chain s, (∀ before tag rest, first? s = .ok (some (before, tag, rest)) →
      (∀ t, ¬ tag.Closes chain → tag.content? store = some t →
        P (enter chain tag.key) t) ∧ P chain rest) → P chain s) (chain : List Text) (s : Text) :
    P chain s := by
  have hcalls := (wellFounded_calls store).transGen
  suffices h : ∀ c : Call, ∀ chain s, c = .text chain s → P chain s from h _ chain s rfl
  intro c
  induction c using hcalls.induction with
  | _ c ih =>
    rintro chain s rfl
    refine step chain s fun before tag rest hs => ⟨fun t hc ht => ?_, ?_⟩
    · exact ih _ (.tail (.single (.content hc ht)) (.reference hs)) _ _ rfl
    · exact ih _ (.single (.rest hs)) _ _ rfl

end Reference

end ConfigGraph
