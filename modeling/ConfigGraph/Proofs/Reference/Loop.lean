import ConfigGraph.Proofs.Reference.First

/-!
# The rounds of an expansion

A text is expanded round by round (`expandFrom`): up to an escaped opener, which is copied without its
escape, or else up to a reference. What has been expanded already is carried along, and nothing
depends on it (`expandFrom_eq_map`). The escaped openers in front of a reference make no difference to
where it is (`first?_of_escapeFirst?`), so the rounds up to a reference together remove the escapes in
front of it, and a text is expanded at its first reference and behind that (`expand_eq`).
-/

namespace ConfigGraph.Reference

variable {store : Store} {chain : List Text} {done s before behind rest : Text} {tag : Tag}
  {a : Nat}

/-! ## Escapes in front -/

theorem unescape_cons {c : Char} (h : ¬ ['$', '$', '{'] <+: c :: s) :
    unescape (c :: s) = c :: unescape s := by
  rw [unescape]
  rintro rest rfl rfl
  exact h (List.prefix_append ['$', '$', '{'] rest)

/-- Up to the first escaped opener there is no escape to remove. -/
theorem unescape_take (h : ∀ before behind, Text.cut? ['$', '$', '{'] s = some (before, behind) →
    a ≤ before.length) : unescape (s.take a) = s.take a := by
  induction s generalizing a with
  | nil => rw [List.take_nil, unescape]
  | cons c s ih =>
    cases a with
    | zero => rw [List.take_zero, unescape]
    | succ a =>
      by_cases hescape : ['$', '$', '{'] <+: c :: s
      · have hcut := h [] _ (if_pos (List.isPrefixOf_iff_prefix.2 hescape))
        exact absurd hcut (Nat.not_succ_le_zero a)
      · have hfront : ¬ ['$', '$', '{'] <+: c :: s.take a :=
          fun hp => hescape (hp.trans (List.cons_prefix_cons.2 ⟨rfl, List.take_prefix a s⟩))
        rw [List.take_succ_cons, unescape_cons hfront, ih fun before behind hcut => ?_]
        refine Nat.le_of_succ_le_succ (h (c :: before) behind ?_)
        rw [Text.cut?, if_neg fun hp => hescape (List.isPrefixOf_iff_prefix.1 hp), hcut]
        rfl

/-- A text up to the first escaped opener, and this opener: only the one escape is removed, and a
reference that it has starts in front of the escape. -/
theorem front_of_cut? (h : Text.cut? ['$', '$', '{'] s = some (before, behind)) :
    unescape (before ++ ['$', '$', '{']) = before ++ ['$', '{'] ∧
      ∀ i a, opening? (before ++ ['$', '$', '{']) i = some a → a < i + before.length := by
  induction s generalizing before with
  | nil => cases h
  | cons c s ih =>
    rw [Text.cut?] at h
    split at h
    · cases h
      exact ⟨rfl, fun i a ha => by cases ha⟩
    · rename_i hescape
      obtain ⟨⟨front, back⟩, hcut, hpair⟩ := Option.map_eq_some_iff.1 h
      cases hpair
      obtain ⟨hunescape, hopening⟩ := ih hcut
      have hfront : ¬ ['$', '$', '{'] <+: c :: (front ++ ['$', '$', '{']) := fun hp =>
        hescape (List.isPrefixOf_iff_prefix.2 (hp.trans (List.cons_prefix_cons.2
          ⟨rfl, Text.eq_append_of_cut? hcut ▸ List.prefix_append _ _⟩)))
      refine ⟨?_, fun i a ha => ?_⟩
      · rw [List.cons_append, unescape_cons hfront, hunescape]
        rfl
      · rw [List.cons_append] at ha
        rw [List.length_cons]
        by_cases hopen : ∃ tail, c :: (front ++ ['$', '$', '{']) = '$' :: '{' :: tail
        · obtain ⟨tail, htail⟩ := hopen
          rw [htail] at ha
          cases ha
          omega
        · rw [opening?] at ha
          · have := hopening (i + 1) a ha
            omega
          · rintro tail rfl htail
            exact hfront (htail ▸ List.prefix_append ['$', '$', '{'] tail)
          · rintro tail rfl htail
            exact hopen ⟨tail, by rw [htail]⟩

theorem escapeFirst?_eq_some_iff : escapeFirst? s = .ok (some (before, behind)) ↔
    Text.cut? ['$', '$', '{'] s = some (before, behind) ∧
      (find? s = .ok none ∨ ∃ a b, find? s = .ok (some (a, b)) ∧ before.length < a) := by
  unfold escapeFirst?
  split
  · rename_i hcut
    simp [hcut]
  · rename_i hcut
    cases hspan : find? s with
    | error e => simp
    | ok span =>
      obtain _ | ⟨a, b⟩ := span
      · simp [hcut]
      · rw [Except.ok.injEq, Option.ite_none_right_eq_some, hcut]
        constructor
        · rintro ⟨hlt, h⟩
          cases h
          exact ⟨rfl, .inr ⟨a, b, rfl, hlt⟩⟩
        · rintro ⟨h, hnone | ⟨a', b', hsome, hlt⟩⟩
          · cases hnone
          · cases h
            cases hsome
            exact ⟨hlt, rfl⟩

/-- The first reference of a text that has an escaped opener in front of it is that of what stands
behind this opener. -/
theorem first?_of_escapeFirst? (h : escapeFirst? s = .ok (some (before, behind))) :
    first? s =
      (first? behind).map (Option.map (Prod.map (before ++ ['$', '$', '{'] ++ ·) id)) := by
  obtain ⟨hcut, hspan⟩ := escapeFirst?_eq_some_iff.1 h
  have hs := Text.eq_append_of_cut? hcut
  have hlast : (before ++ ['$', '$', '{']).getLast? ≠ some '$' := by simp
  have hnone : opening? (before ++ ['$', '$', '{']) 0 = none := by
    refine Option.eq_none_iff_forall_ne_some.2 fun a ha => ?_
    have hlt := (front_of_cut? hcut).2 0 a ha
    have hopen : opening? s 0 = some a := hs ▸ opening?_append_of_some ha
    rcases hspan with hspan | ⟨a', b, hspan, hle⟩
    · cases hopen.symm.trans (find?_eq_none_iff.1 hspan)
    · cases hopen.symm.trans (find?_eq_some_iff.1 hspan).1
      omega
  rw [hs]
  exact first?_append_of_none hlast (first?_eq_none_iff.2 (find?_eq_none_iff.2 hnone))

theorem find?_of_escapeFirst? {e : ConfigError} (h : escapeFirst? s = .error e) :
    find? s = .error e := by
  unfold escapeFirst? at h
  split at h
  · cases h
  · split at h
    · rename_i hspan
      cases h
      exact hspan
    · cases h
    · cases h

/-- An escaped opener that does not come before any reference is behind the first one. -/
theorem le_length_of_escapeFirst? {b : Nat} (he : escapeFirst? s = .ok none)
    (hspan : find? s = .ok (some (a, b)))
    (hcut : Text.cut? ['$', '$', '{'] s = some (before, behind)) : a ≤ before.length := by
  refine Nat.le_of_not_lt fun hlt => ?_
  cases he.symm.trans (escapeFirst?_eq_some_iff.2 ⟨hcut, .inr ⟨a, b, hspan, hlt⟩⟩)

/-- A text without references that has no escaped opener stands for itself. -/
theorem unescape_of_escapeFirst? (he : escapeFirst? s = .ok none) (hspan : find? s = .ok none) :
    unescape s = s := by
  have htake := unescape_take (a := s.length) fun before behind hcut => by
    cases he.symm.trans (escapeFirst?_eq_some_iff.2 ⟨hcut, .inl hspan⟩)
  rwa [List.take_length] at htake

theorem unescape_of_cut? (h : Text.cut? ['$', '$', '{'] s = some (before, behind)) (t : Text) :
    unescape (before ++ ['$', '$', '{'] ++ t) = before ++ ['$', '{'] ++ unescape t := by
  rw [unescape_append (by simp), (front_of_cut? h).1]

/-! ## Rounds -/

/-- The rounds of an expansion up to the first reference, and that round. -/
theorem expandFrom_eq (store : Store) (chain : List Text) (done s : Text) :
    expandFrom store chain done s = match first? s with
      | .error e => .error e
      | .ok none => .ok (done ++ unescape s)
      | .ok (some (before, tag, rest)) =>
        match tagValue store chain tag with
        | .error e => .error e
        | .ok none => .error (.referenceNotFound tag.key)
        | .ok (some value) => expandFrom store chain (done ++ unescape before ++ value) rest := by
  -- on the length of what is left: a round that copies an opener goes on behind its escape
  induction hn : s.length using Nat.strongRecOn generalizing done s with | _ n ih
  subst hn
  rw [expandFrom]
  split
  · rename_i e he
    simp only [first?, find?_of_escapeFirst? he]
  · rename_i before behind he
    have hcut := (escapeFirst?_eq_some_iff.1 he).1
    have hs := Text.eq_append_of_cut? hcut
    have hunescape := unescape_of_cut? hcut
    rw [ih _ (length_of_escapeFirst? he) _ _ rfl, first?_of_escapeFirst? he]
    rcases first? behind with e | _ | ⟨front, tag, rest⟩
    · rfl
    · rw [hs]
      simp only [Except.map, Option.map_none, hunescape]
      simp only [List.append_assoc]
    · simp only [Except.map, Option.map_some, Prod.map, id_eq, hunescape]
      simp only [List.append_assoc]
  · rename_i he
    split
    · rename_i hspan
      simp only [first?, hspan]
    · rename_i hspan
      simp only [first?, hspan, unescape_of_escapeFirst? he hspan]
    · rename_i a b hspan
      have hfront := unescape_take fun before behind => le_length_of_escapeFirst? he hspan
      split
      · rename_i hparse
        simp only [first?, hspan, hparse]
      · rename_i tag hparse
        have hfirst : first? s = .ok (some (s.take a, tag, s.drop (b + 1))) := by
          simp only [first?, hspan, hparse]
        rw [hfirst]
        dsimp only
        rcases tagValue store chain tag with e | _ | value
        · rfl
        · rfl
        · simp only [hfront]

/-- What has been expanded already stays in front. -/
theorem expandFrom_eq_map (store : Store) (chain : List Text) (done s : Text) :
    expandFrom store chain done s = (expand store chain s).map (done ++ ·) := by
  rw [expand]
  induction hn : s.length using Nat.strongRecOn generalizing done s with | _ n ih
  subst hn
  rw [expandFrom_eq, expandFrom_eq store chain [] s]
  cases hfirst : first? s with
  | error e => rfl
  | ok first =>
    obtain _ | ⟨before, tag, rest⟩ := first
    · rfl
    · dsimp only
      cases tagValue store chain tag with
      | error e => rfl
      | ok value =>
        cases value with
        | none => rfl
        | some value =>
          have hrest := ih _ (length_of_first? hfirst).2
          dsimp only
          rw [hrest _ _ rfl, hrest ([] ++ unescape before ++ value) _ rfl]
          cases expandFrom store chain [] rest with
          | error e => rfl
          | ok tail => simp only [Except.map, List.nil_append, List.append_assoc]

/-- A text is expanded up to its first reference, at this reference, and behind it. -/
theorem expand_eq (store : Store) (chain : List Text) (s : Text) :
    expand store chain s = match first? s with
      | .error e => .error e
      | .ok none => .ok (unescape s)
      | .ok (some (before, tag, rest)) =>
        match tagValue store chain tag with
        | .error e => .error e
        | .ok none => .error (.referenceNotFound tag.key)
        | .ok (some value) =>
          (expand store chain rest).map fun tail => unescape before ++ value ++ tail := by
  rw [expand, expandFrom_eq]
  simp only [expandFrom_eq_map, List.nil_append]

end ConfigGraph.Reference
