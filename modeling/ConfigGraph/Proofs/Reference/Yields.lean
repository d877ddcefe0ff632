import ConfigGraph.Proofs.Reference.Expansion

/-!
# What texts stand for

What a text stands for does not depend on the keys being expanded (`Yields`, `Yields.unique`). These
decide no more than whether it is found: expanding a text succeeds exactly if it stands for a text,
and on the way it comes to no key that is being expanded (`expand_eq_ok_iff_yields`). Where it comes
to one, a cycle is reported (`expand_eq_cycle`).
-/

namespace ConfigGraph.Reference

/-- A text stands for another one: each reference in it for what its content stands for. The number
counts the references that are replaced on the way. -/
inductive Yields (store : Store) : Text → Text → Nat → Prop where
  | plain {s : Text} (hs : first? s = .ok none) : Yields store s (unescape s) 0
  | reference {s before rest t value tail : Text} {tag : Tag} {m n : Nat}
      (hs : first? s = .ok (some (before, tag, rest))) (ht : tag.content? store = some t)
      (hvalue : Yields store t value m) (htail : Yields store rest tail n) :
      Yields store s (unescape before ++ value ++ tail) (m + n + 1)

/-- Expanding a text comes to a reference, in the text or in what a reference in it stands for. -/
inductive Reaches (store : Store) : Text → Tag → Prop where
  | here {s before rest : Text} {tag : Tag} (hs : first? s = .ok (some (before, tag, rest))) :
      Reaches store s tag
  | inside {s before rest t : Text} {tag tag' : Tag}
      (hs : first? s = .ok (some (before, tag, rest))) (ht : tag.content? store = some t)
      (h : Reaches store t tag') : Reaches store s tag'
  | behind {s before rest : Text} {tag tag' : Tag}
      (hs : first? s = .ok (some (before, tag, rest))) (h : Reaches store rest tag') :
      Reaches store s tag'

/-- Expanding a text comes to a key. -/
def ReachesKey (store : Store) (s key : Text) : Prop :=
  ∃ tag, Reaches store s tag ∧ tag.key = key

/-- Expanding what a tag stands for comes to the key of the tag again. -/
def Returns (store : Store) (tag : Tag) : Prop :=
  ∃ t, tag.content? store = some t ∧ ReachesKey store t tag.key

variable {store : Store} {chain : List Text} {s t v v' before rest : Text} {tag : Tag} {m n : Nat}

theorem not_reaches (hs : first? s = .ok none) : ¬ Reaches store s tag := by
  intro h
  cases h with
  | here hs' | inside hs' | behind hs' => cases hs.symm.trans hs'

theorem Yields.unique (h : Yields store s v m) (h' : Yields store s v' n) : v = v' ∧ m = n := by
  induction h generalizing v' n with
  | plain hs =>
    cases h' with
    | plain => exact ⟨rfl, rfl⟩
    | reference hs' => cases hs.symm.trans hs'
  | reference hs ht _ _ ihvalue ihtail =>
    cases h' with
    | plain hs' => cases hs.symm.trans hs'
    | reference hs' ht' hvalue htail =>
      cases hs.symm.trans hs'
      cases ht.symm.trans ht'
      obtain ⟨rfl, rfl⟩ := ihvalue hvalue
      obtain ⟨rfl, rfl⟩ := ihtail htail
      exact ⟨rfl, rfl⟩

theorem mem_enter {k key : Text} : k ∈ enter chain key ↔ k ∈ chain ∨ (k = key ∧ key ≠ []) := by
  unfold enter
  split
  · rename_i h
    simp [h]
  · rename_i h
    simp [h]

/-- What a text stands for, taken apart at its first reference. -/
theorem Yields.first (h : Yields store s v n) (hs : first? s = .ok (some (before, tag, rest))) :
    ∃ t value tail k m, tag.content? store = some t ∧ Yields store t value k ∧
      Yields store rest tail m ∧ v = unescape before ++ value ++ tail ∧ n = k + m + 1 := by
  cases h with
  | plain hs' => cases hs.symm.trans hs'
  | reference hs' ht hvalue htail =>
    cases hs.symm.trans hs'
    exact ⟨_, _, _, _, _, ht, hvalue, htail, rfl, rfl⟩

/-- The content of a reference takes fewer replacements than a text whose expansion comes to the
reference. -/
theorem Reaches.yields (h : Reaches store s tag) (hs : Yields store s v n)
    (ht : tag.content? store = some t) : ∃ v' m, Yields store t v' m ∧ m < n := by
  induction h generalizing v n with
  | here hfirst =>
    obtain ⟨t', value, tail, k, m, ht', hvalue, -, -, rfl⟩ := hs.first hfirst
    cases ht.symm.trans ht'
    exact ⟨value, k, hvalue, by omega⟩
  | inside hfirst ht₁ _ ih =>
    obtain ⟨t', value, tail, k, m, ht', hvalue, -, -, rfl⟩ := hs.first hfirst
    cases ht₁.symm.trans ht'
    obtain ⟨v', l, hv, hl⟩ := ih hvalue ht
    exact ⟨v', l, hv, by omega⟩
  | behind hfirst _ ih =>
    obtain ⟨t', value, tail, k, m, -, -, htail, -, rfl⟩ := hs.first hfirst
    obtain ⟨v', l, hv, hl⟩ := ih htail ht
    exact ⟨v', l, hv, by omega⟩

/-- A stored text that stands for something is not needed for itself. -/
theorem Yields.not_reachesKey {key : Text} (hs : Yields store s v n) (hkey : key ≠ [])
    (hget : store.get? key = some s) : ¬ ReachesKey store s key := by
  rintro ⟨tag, hreaches, rfl⟩
  have ht : tag.content? store = some s := by rw [Tag.content?, if_neg hkey, hget, Option.some_or]
  obtain ⟨v', m, hv, hlt⟩ := hreaches.yields hs ht
  obtain ⟨-, rfl⟩ := hs.unique hv
  exact absurd hlt (Nat.lt_irrefl _)

/-! ## Successful expansions -/

theorem tagValue_eq_some_iff {value : Text} : tagValue store chain tag = .ok (some value) ↔
    ¬ tag.Closes chain ∧
      ∃ t, tag.content? store = some t ∧ expand store (enter chain tag.key) t = .ok value := by
  rw [tagValue_eq]
  split
  · rename_i hc
    exact iff_of_false (fun h => nomatch h) fun h => h.1 hc
  · rename_i hc
    split
    · rename_i ht
      exact iff_of_false (fun h => nomatch h) fun ⟨_, t, ht', _⟩ => nomatch ht.symm.trans ht'
    · rename_i t ht
      cases hvalue : expand store (enter chain tag.key) t <;> simp [ht, hc, hvalue, Except.map]

/-- How a text is expanded that has a reference. -/
theorem expand_eq_ok_iff (hs : first? s = .ok (some (before, tag, rest))) :
    expand store chain s = .ok v ↔ ∃ value tail, tagValue store chain tag = .ok (some value) ∧
      expand store chain rest = .ok tail ∧ v = unescape before ++ value ++ tail := by
  rw [expand_eq, hs]
  dsimp only
  split
  · rename_i hvalue
    simp [hvalue]
  · rename_i hvalue
    simp [hvalue]
  · rename_i hvalue
    cases htail : expand store chain rest <;> simp [hvalue, Except.map, eq_comm]

/-- Expanding a text succeeds exactly if it stands for a text, and the expansion comes neither to a
key that is being expanded nor back to one that it enters. -/
theorem expand_eq_ok_iff_yields : expand store chain s = .ok v ↔ (∃ n, Yields store s v n) ∧
    ∀ tag, Reaches store s tag → tag.key ≠ [] → tag.key ∉ chain ∧ ¬ Returns store tag := by
  induction chain, s using expand_induct store generalizing v with | step chain s ih => ?_
  cases hs : first? s with
  | error e =>
    rw [expand_eq, hs]
    refine iff_of_false (fun h => nomatch h) fun ⟨⟨n, h⟩, _⟩ => ?_
    cases h with
    | plain hs' | reference hs' => cases hs.symm.trans hs'
  | ok first =>
    obtain _ | ⟨before, tag, rest⟩ := first
    · rw [expand_eq, hs]
      constructor
      · rintro ⟨⟩
        exact ⟨⟨0, .plain hs⟩, fun tag h => absurd h (not_reaches hs)⟩
      · rintro ⟨⟨n, h⟩, -⟩
        rw [(h.unique (.plain hs)).1]
    · obtain ⟨ihcontent, ihrest⟩ := ih before tag rest hs
      rw [expand_eq_ok_iff hs]
      constructor
      · rintro ⟨value, tail, hvalue, htail, rfl⟩
        obtain ⟨hc, t, ht, hvalue⟩ := tagValue_eq_some_iff.1 hvalue
        obtain ⟨⟨k, hk⟩, hinside⟩ := (ihcontent t hc ht).1 hvalue
        obtain ⟨⟨m, hm⟩, hbehind⟩ := ihrest.1 htail
        refine ⟨⟨_, .reference hs ht hk hm⟩, fun tag' h hkey => ?_⟩
        cases h with
        | here hs' =>
          cases hs.symm.trans hs'
          refine ⟨fun h => hc ⟨hkey, h⟩, fun ⟨t', ht', tag', h, he⟩ => ?_⟩
          cases ht.symm.trans ht'
          exact (hinside tag' h (he ▸ hkey)).1 (mem_enter.2 (.inr ⟨he, he ▸ hkey⟩))
        | inside hs' ht' h =>
          cases hs.symm.trans hs'
          cases ht.symm.trans ht'
          have := hinside tag' h hkey
          exact ⟨fun h => this.1 (mem_enter.2 (.inl h)), this.2⟩
        | behind hs' h =>
          cases hs.symm.trans hs'
          exact hbehind tag' h hkey
      · rintro ⟨⟨n, hn⟩, hfree⟩
        obtain ⟨t, value, tail, k, m, ht, hvalue, htail, rfl, -⟩ := hn.first hs
        have hc : ¬ tag.Closes chain := fun h => (hfree tag (.here hs) h.1).1 h.2
        have hinside : expand store (enter chain tag.key) t = .ok value := by
          refine (ihcontent t hc ht).2 ⟨⟨k, hvalue⟩, fun tag' h hkey => ?_⟩
          obtain ⟨hchain, hreturns⟩ := hfree tag' (.inside hs ht h) hkey
          refine ⟨fun hmem => ?_, hreturns⟩
          rcases mem_enter.1 hmem with hmem | ⟨he, hne⟩
          · exact hchain hmem
          · exact (hfree tag (.here hs) hne).2 ⟨t, ht, tag', h, he⟩
        have hbehind : expand store chain rest = .ok tail :=
          ihrest.2 ⟨⟨m, htail⟩, fun tag' h => hfree tag' (.behind hs h)⟩
        exact ⟨value, tail, tagValue_eq_some_iff.2 ⟨hc, t, ht, hinside⟩, hbehind, rfl⟩

/-! ## Cycles -/

theorem tagValue_eq_cycle_iff {cycle : List Text} :
    tagValue store chain tag = .error (.referenceCycle cycle) ↔
      (tag.Closes chain ∧ cycle = chain ++ [tag.key]) ∨
      ¬ tag.Closes chain ∧ ∃ t, tag.content? store = some t ∧
        expand store (enter chain tag.key) t = .error (.referenceCycle cycle) := by
  rw [tagValue_eq]
  split
  · rename_i hc
    simp [hc, eq_comm]
  · rename_i hc
    have hnot : ¬ (tag.Closes chain ∧ cycle = chain ++ [tag.key]) := fun h => hc h.1
    rw [or_iff_right hnot, and_iff_right hc]
    split
    · rename_i ht
      simp [ht]
    · rename_i t ht
      cases hvalue : expand store (enter chain tag.key) t <;> simp [ht, hvalue, Except.map]

/-- How the expansion of a text that has a reference fails at a cycle. -/
theorem expand_eq_cycle_iff {cycle : List Text} (hs : first? s = .ok (some (before, tag, rest))) :
    expand store chain s = .error (.referenceCycle cycle) ↔
      tagValue store chain tag = .error (.referenceCycle cycle) ∨
      ∃ value, tagValue store chain tag = .ok (some value) ∧
        expand store chain rest = .error (.referenceCycle cycle) := by
  rw [expand_eq, hs]
  dsimp only
  split
  · rename_i hvalue
    simp [hvalue]
  · rename_i hvalue
    simp [hvalue]
  · rename_i hvalue
    cases htail : expand store chain rest <;> simp [hvalue, Except.map]

/-- The expansion of a text that stands for another one can only fail at a cycle. -/
theorem Yields.expand_cases (h : Yields store s v n) (chain : List Text) :
    expand store chain s = .ok v ∨
      ∃ cycle, expand store chain s = .error (.referenceCycle cycle) := by
  induction h generalizing chain with
  | plain hs =>
    rw [expand_eq, hs]
    exact .inl rfl
  | @reference s before rest t value tail tag m n hs ht _ _ ihvalue ihtail =>
    rw [expand_eq_ok_iff hs]
    simp only [expand_eq_cycle_iff hs]
    by_cases hc : tag.Closes chain
    · exact .inr ⟨_, .inl (tagValue_eq_cycle_iff.2 (.inl ⟨hc, rfl⟩))⟩
    · rcases ihvalue (enter chain tag.key) with hvalue | ⟨cycle, hvalue⟩
      · have hvalue := tagValue_eq_some_iff.2 ⟨hc, t, ht, hvalue⟩
        rcases ihtail chain with htail | ⟨cycle, htail⟩
        · exact .inl ⟨value, tail, hvalue, htail, rfl⟩
        · exact .inr ⟨cycle, .inr ⟨value, hvalue, htail⟩⟩
      · exact .inr ⟨cycle, .inl (tagValue_eq_cycle_iff.2 (.inr ⟨hc, t, ht, hvalue⟩))⟩

/-- A text is not taken apart at a cycle. -/
theorem first?_ne_cycle (s : Text) (cycle : List Text) :
    first? s ≠ .error (.referenceCycle cycle) := by
  have hfind : ∀ s, find? s ≠ .error (.referenceCycle cycle) := by
    intro s h
    unfold find? at h
    split at h
    · cases h
    · split at h <;> cases h
  intro h
  unfold first? at h
  split at h
  · rename_i hs
    cases h
    exact hfind s hs
  · cases h
  · split at h
    · rename_i hparse
      cases h
      unfold Tag.parse at hparse
      split at hparse
      · cases hparse
      · split at hparse
        · rename_i hs
          cases hparse
          exact hfind _ hs
        · split at hparse <;> cases hparse
    · cases h

/-- A cycle is reported where an expansion comes to a key that is being expanded: one of those at
the start, or one that the expansion has entered itself and to which it returns. -/
theorem expand_eq_cycle {cycle : List Text}
    (h : expand store chain s = .error (.referenceCycle cycle)) :
    ∃ (between : List Text) (tag : Tag), Reaches store s tag ∧ tag.key ≠ [] ∧
      cycle = chain ++ between ++ [tag.key] ∧
      (tag.key ∈ chain ∨ ∃ tag', tag'.key = tag.key ∧ Reaches store s tag' ∧
        Returns store tag') := by
  induction chain, s using expand_induct store generalizing cycle with | step chain s ih => ?_
  cases hs : first? s with
  | error e =>
    rw [expand_eq, hs] at h
    cases h
    exact absurd hs (first?_ne_cycle s cycle)
  | ok first =>
    obtain _ | ⟨before, tag, rest⟩ := first
    · rw [expand_eq, hs] at h
      cases h
    · obtain ⟨ihcontent, ihrest⟩ := ih before tag rest hs
      rcases (expand_eq_cycle_iff hs).1 h with h | ⟨value, -, h⟩
      · rcases tagValue_eq_cycle_iff.1 h with ⟨hc, rfl⟩ | ⟨hc, t, ht, h⟩
        · exact ⟨[], tag, .here hs, hc.ne_nil, by rw [List.append_nil], .inl hc.mem⟩
        · obtain ⟨between, last, hreaches, hkey, hcycle, hlast⟩ := ihcontent t hc ht h
          refine ⟨enter [] tag.key ++ between, last, .inside hs ht hreaches, hkey, ?_, ?_⟩
          · rw [hcycle, enter_eq_append, List.append_assoc chain]
          · rcases hlast with hmem | ⟨tag', hsame, hreaches', hreturns⟩
            · rcases mem_enter.1 hmem with hmem | ⟨hsame, -⟩
              · exact .inl hmem
              · exact .inr ⟨tag, hsame.symm, .here hs, t, ht, last, hreaches, hsame⟩
            · exact .inr ⟨tag', hsame, .inside hs ht hreaches', hreturns⟩
      · obtain ⟨between, last, hreaches, hkey, hcycle, hlast⟩ := ihrest h
        refine ⟨between, last, .behind hs hreaches, hkey, hcycle, hlast.imp_right ?_⟩
        rintro ⟨tag', hsame, hreaches', hreturns⟩
        exact ⟨tag', hsame, .behind hs hreaches', hreturns⟩

end ConfigGraph.Reference
