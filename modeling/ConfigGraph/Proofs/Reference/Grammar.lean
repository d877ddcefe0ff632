import ConfigGraph.Proofs.Reference.Faults
import Mathlib.Order.Bounds.Basic

/-!
# Where the first reference stands

Reading a text from the left outside of references meets an opener (`Meets`) exactly where no dollar
sign stands in front of one (`meets_iff`). The first reference starts at the first opener that is
met, and ends where for the first time as many closing braces as openers have been passed
(`Settles`). The scan finds these two positions, and fails exactly if there is the first and not the
second (`find?_iff_isLeast`).
-/

namespace ConfigGraph.Reference

/-- Reading a text from the left, outside of references, meets an opener at a position. An escaped
opener is stepped over as a whole, and all else character by character. -/
inductive Meets : Text → Nat → Prop where
  | opener (rest : Text) : Meets ('$' :: '{' :: rest) 0
  | escape {rest : Text} {a : Nat} (h : Meets rest a) : Meets ('$' :: '$' :: '{' :: rest) (a + 3)
  | step {c : Char} {rest : Text} {a : Nat} (hc : ¬ ['$', '$', '{'] <+: c :: rest)
      (h : Meets rest a) : Meets (c :: rest) (a + 1)

/-- From the opener at a position up to a later position of the text, that one included, there are as
many closing braces as openers. A dollar sign in front of an opener makes no difference here. -/
def Settles (s : Text) (a b : Nat) : Prop :=
  a < b ∧ b < s.length ∧ (slice s a b).count '}' = openers (slice s a b)

variable {s rest : Text} {a b depth i : Nat}

/-! ## The opener -/

theorem meets_of_opening? (h : opening? s i = some (i + a)) : Meets s a := by
  fun_induction opening? s i generalizing a with
  | case1 rest i ih =>
    have hle := (opening?_lt h).1
    obtain ⟨a, rfl⟩ : ∃ n, a = n + 3 := ⟨a - 3, by omega⟩
    exact .escape (ih (by rw [h]; congr 1; omega))
  | case2 rest i =>
    obtain rfl : a = 0 := by simpa using h
    exact .opener rest
  | case3 c rest i hescape _ ih =>
    have hle := (opening?_lt h).1
    obtain ⟨a, rfl⟩ : ∃ n, a = n + 1 := ⟨a - 1, by omega⟩
    refine .step (fun hfront => ?_) (ih (by rw [h]; congr 1; omega))
    obtain ⟨tail, ht⟩ := hfront
    cases ht
    exact hescape tail rfl rfl
  | case4 => cases h

/-- No opener that is met comes before the one that is found. -/
theorem Meets.exists_opening? (h : Meets s a) (i : Nat) :
    ∃ n, opening? s i = some (i + n) ∧ n ≤ a := by
  induction h generalizing i with
  | opener rest => exact ⟨0, rfl, Nat.le_refl 0⟩
  | escape _ ih =>
    obtain ⟨n, hn, hle⟩ := ih (i + 3)
    exact ⟨n + 3, by rw [opening?, hn]; congr 1; omega, by omega⟩
  | @step c rest a hc _ ih =>
    by_cases hopen : ∃ tail, c :: rest = '$' :: '{' :: tail
    · obtain ⟨tail, htail⟩ := hopen
      exact ⟨0, by rw [htail]; rfl, Nat.zero_le _⟩
    · obtain ⟨n, hn, hle⟩ := ih (i + 1)
      refine ⟨n + 1, ?_, by omega⟩
      rw [opening?, hn]
      · congr 1
        omega
      · rintro tail rfl rfl
        exact hc ⟨tail, rfl⟩
      · rintro tail rfl rfl
        exact hopen ⟨tail, rfl⟩

theorem opening?_eq_none_iff : opening? s 0 = none ↔ ∀ a, ¬ Meets s a := by
  rw [Option.eq_none_iff_forall_ne_some]
  constructor
  · intro h a hm
    obtain ⟨n, hn, -⟩ := hm.exists_opening? 0
    exact h _ hn
  · intro h n hn
    exact h n (meets_of_opening? (i := 0) (by rw [hn, Nat.zero_add]))

theorem opening?_eq_some_iff : opening? s 0 = some a ↔ IsLeast {a | Meets s a} a := by
  have hfirst : ∀ {n}, opening? s 0 = some n → IsLeast {a | Meets s a} n := by
    intro n hn
    refine ⟨meets_of_opening? (i := 0) (by rw [hn, Nat.zero_add]), fun b hb => ?_⟩
    obtain ⟨m, hm, hle⟩ := Meets.exists_opening? hb 0
    rw [hn, Nat.zero_add, Option.some.injEq] at hm
    omega
  refine ⟨hfirst, fun h => ?_⟩
  obtain ⟨n, hn, -⟩ := Meets.exists_opening? h.1 0
  rw [Nat.zero_add] at hn
  rw [hn, (hfirst hn).unique h]

/-- What is met is an opener, and no dollar sign stands in front of it. -/
theorem Meets.unescaped (h : Meets s a) :
    ['$', '{'] <+: s.drop a ∧ ∀ k, a = k + 1 → s[k]? ≠ some '$' := by
  induction h with
  | opener rest => exact ⟨List.prefix_append ['$', '{'] rest, fun k hk => by cases hk⟩
  | @escape rest a _ ih =>
    refine ⟨ih.1, fun k hk => ?_⟩
    obtain rfl : k = a + 2 := by omega
    cases a with
    | zero => exact fun hd => by cases hd
    | succ a => exact ih.2 a rfl
  | @step c rest a hc _ ih =>
    refine ⟨ih.1, fun k hk => ?_⟩
    obtain rfl : a = k := by omega
    cases a with
    | zero =>
      -- a dollar sign in front of an opener would make it an escaped one
      intro hd
      obtain rfl : c = '$' := by simpa using hd
      exact hc ((List.prefix_cons_inj '$').2 ih.1)
    | succ a => exact ih.2 a rfl

theorem meets_of_prefix (hopen : ['$', '{'] <+: s.drop a)
    (hfront : ∀ k, a = k + 1 → s[k]? ≠ some '$') : Meets s a := by
  fun_induction unescape s generalizing a with
  | case1 rest ih =>
    rcases a with _ | _ | _ | a
    · exact absurd hopen (by simp)
    · exact absurd rfl (hfront 0 rfl)
    · exact absurd hopen (by simp)
    · refine .escape (ih hopen fun k hk => ?_)
      subst hk
      exact hfront (k + 3) rfl
  | case2 c rest hc ih =>
    cases a with
    | zero =>
      obtain ⟨tail, htail⟩ := hopen
      cases htail
      exact .opener tail
    | succ a =>
      refine .step (fun hescape => ?_) (ih hopen fun k hk => ?_)
      · obtain ⟨tail, ht⟩ := hescape
        cases ht
        exact hc tail rfl rfl
      · subst hk
        exact hfront (k + 1) rfl
  | case3 => simp at hopen

/-- An opener is met exactly if no dollar sign stands in front of it. -/
theorem meets_iff : Meets s a ↔ ['$', '{'] <+: s.drop a ∧ ∀ k, a = k + 1 → s[k]? ≠ some '$' :=
  ⟨Meets.unescaped, fun h => meets_of_prefix h.1 h.2⟩

/-! ## The closing brace -/

/-- Where more references have been closed than were open, one brace has closed the last of them. -/
theorem exists_closing? (h : openers s + depth < s.count '}') (i : Nat) :
    ∃ n, closing? s depth i = some n := by
  fun_induction closing? s depth i with
  | case1 rest depth i ih =>
    refine ih ?_
    rw [openers_opener, List.count_cons_of_ne (by decide), List.count_cons_of_ne (by decide)] at h
    omega
  | case2 rest i => exact ⟨i, rfl⟩
  | case3 rest depth i ih =>
    refine ih ?_
    rw [openers_cons fun _ h => absurd h (by decide), List.count_cons_self] at h
    omega
  | case4 c rest depth i hopen hbrace ih =>
    refine ih ?_
    rwa [openers_cons hopen, List.count_cons_of_ne hbrace] at h
  | case5 => exact absurd h (Nat.not_lt_zero _)

theorem slice_opener (h : s.drop a = '$' :: '{' :: rest) (n : Nat) :
    slice s a (a + 1 + n) = '$' :: '{' :: rest.take n := by
  rw [slice, List.drop_take, h, show a + 1 + n + 1 - a = n + 2 by omega]
  rfl

/-- Behind an opener it is settled where one reference more has been closed than opened. -/
theorem settles_iff (h : s.drop a = '$' :: '{' :: rest) : Settles s a b ↔
    ∃ n, b = a + 1 + n ∧ n ≤ rest.length ∧ (rest.take n).count '}' = openers (rest.take n) + 1 := by
  have hlen : s.length = a + 2 + rest.length := by
    have hdrop := congrArg List.length h
    simp only [List.length_drop, List.length_cons] at hdrop
    omega
  have hcount : ∀ n, ((slice s a (a + 1 + n)).count '}' = openers (slice s a (a + 1 + n)) ↔
      (rest.take n).count '}' = openers (rest.take n) + 1) := fun n => by
    rw [slice_opener h, openers_opener, List.count_cons_of_ne (by decide),
      List.count_cons_of_ne (by decide)]
  constructor
  · rintro ⟨hab, hb, heq⟩
    obtain ⟨n, rfl⟩ : ∃ n, b = a + 1 + n := ⟨b - (a + 1), by omega⟩
    exact ⟨n, rfl, by omega, (hcount n).1 heq⟩
  · rintro ⟨n, rfl, hn, heq⟩
    exact ⟨by omega, by omega, (hcount n).2 heq⟩

/-- The brace that is found is the first at which it is settled. -/
theorem isLeast_of_closing? (h : s.drop a = '$' :: '{' :: rest)
    (hb : closing? rest 0 (a + 2) = some b) : IsLeast {b | Settles s a b} b := by
  obtain ⟨inner, tail, rfl, rfl, hclosed⟩ := closing?_eq_some_iff.1 hb
  constructor
  · refine (settles_iff h).2 ⟨inner.length + 1, by omega, by simp, ?_⟩
    have hpassed : (inner ++ '}' :: tail).take (inner.length + 1) = inner ++ ['}'] := by
      rw [List.append_cons]
      exact List.take_left' (by simp)
    rw [hpassed, openers_append (by decide), List.count_append, hclosed.settled]
    rfl
  · intro j hj
    obtain ⟨n, rfl, -, heq⟩ := (settles_iff h).1 hj
    by_contra hlt
    -- up to here only a beginning of the balanced text has been passed
    have hfront : (inner ++ '}' :: tail).take n = inner.take n :=
      List.take_append_of_le_length (by omega)
    have hsane := hclosed.sane _ (List.take_prefix n inner)
    rw [hfront] at heq
    omega

theorem Settles.exists_closing? (h : s.drop a = '$' :: '{' :: rest) (hb : Settles s a b) :
    ∃ n, closing? rest 0 (a + 2) = some n := by
  obtain ⟨n, -, -, heq⟩ := (settles_iff h).1 hb
  have hmore : openers (rest.take n) + 0 < (rest.take n).count '}' := by omega
  obtain ⟨m, hm⟩ := Reference.exists_closing? hmore (a + 2)
  exact ⟨m, by rw [← List.take_append_drop n rest]; exact closing?_append_of_some hm⟩

theorem closing?_eq_some_iff_isLeast (h : s.drop a = '$' :: '{' :: rest) :
    closing? rest 0 (a + 2) = some b ↔ IsLeast {b | Settles s a b} b := by
  refine ⟨isLeast_of_closing? h, fun hb => ?_⟩
  obtain ⟨n, hn⟩ := Settles.exists_closing? h hb.1
  rw [hn, (isLeast_of_closing? h hn).unique hb]

theorem closing?_eq_none_iff_settles (h : s.drop a = '$' :: '{' :: rest) :
    closing? rest 0 (a + 2) = none ↔ ∀ b, ¬ Settles s a b := by
  constructor
  · intro hnone b hb
    obtain ⟨n, hn⟩ := Settles.exists_closing? h hb
    rw [hnone] at hn
    cases hn
  · intro hnone
    exact Option.eq_none_iff_forall_ne_some.2 fun n hn => hnone n (isLeast_of_closing? h hn).1

/-! ## Both -/

/-- The scan finds nothing exactly if no opener is met. Otherwise it starts at the first opener that
is met: it finds the first position at which as many references have been closed as opened, and
fails exactly if there is none. Openers that no dollar sign stands in front of are met. -/
theorem find?_iff_isLeast (s : Text) :
    (find? s = .ok none ↔ ∀ a, ¬ Meets s a) ∧
    (∀ a b, find? s = .ok (some (a, b)) ↔
      IsLeast {a | Meets s a} a ∧ IsLeast {b | Settles s a b} b) ∧
    (find? s = .error .unclosedReference ↔
      ∃ a, IsLeast {a | Meets s a} a ∧ ∀ b, ¬ Settles s a b) ∧
    ∀ a, Meets s a ↔ ['$', '{'] <+: s.drop a ∧ ∀ k, a = k + 1 → s[k]? ≠ some '$' := by
  have hdrop : ∀ {a}, opening? s 0 = some a → s.drop a = '$' :: '{' :: s.drop (a + 2) :=
    fun ha => drop_of_opening? ha
  refine ⟨find?_eq_none_iff.trans opening?_eq_none_iff, fun a b => ?_, ?_, fun a => meets_iff⟩
  · rw [find?_eq_some_iff, ← opening?_eq_some_iff]
    exact and_congr_right fun ha => closing?_eq_some_iff_isLeast (hdrop ha)
  · simp only [← opening?_eq_some_iff]
    cases ha : opening? s 0 with
    | none => simp [find?, ha]
    | some a =>
      have hclose := closing?_eq_none_iff_settles (hdrop ha)
      simp only [Option.some.injEq, exists_eq_left', ← hclose, find?, ha]
      cases closing? (s.drop (a + 2)) 0 (a + 2) <;> simp

/-- A second dollar sign escapes the first opener, and makes no difference to the one inside. -/
example : find? ['$', '$', '{', '}', '$', '{', '$', '$', '{', '}', '}'] = .ok (some (4, 10)) :=
  rfl

end ConfigGraph.Reference
