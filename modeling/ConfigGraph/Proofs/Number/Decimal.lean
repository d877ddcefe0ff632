import ConfigGraph.Number.IntType

/-!
# Numerals are read as they are written

The digits of a number stand for it (`ofDigits_digits`), and an integer type reads the numeral of
each of its numbers as that number (`IntType.read?_writeInt`).
-/

namespace ConfigGraph.Number

theorem isDigit_of_mem_digits {n : Nat} {c : Char} (h : c ∈ digits n) : Text.isDigit c = true := by
  have hc : c.isDigit = true := Nat.isDigit_of_mem_toDigits (by decide) (by decide) h
  simp only [Char.isDigit, Bool.and_eq_true, decide_eq_true_eq, UInt32.le_iff_toNat_le] at hc
  simp only [Text.isDigit, Bool.and_eq_true, decide_eq_true_eq]
  exact hc

theorem not_mem_digits {n : Nat} {c : Char} (h : Text.isDigit c = false) : c ∉ digits n :=
  fun hc => by rw [isDigit_of_mem_digits hc] at h; cases h

theorem digits_ne_nil (n : Nat) : digits n ≠ [] :=
  Nat.toDigits_ne_nil

theorem isDigit_of_mem_writeInt {n : Int} {c : Char} (h : c ∈ writeInt n) :
    c = '-' ∨ Text.isDigit c = true := by
  cases n with
  | ofNat n => exact .inr (isDigit_of_mem_digits h)
  | negSucc n => exact (List.mem_cons.1 h).imp_right isDigit_of_mem_digits

theorem writeInt_ne_nil (n : Int) : writeInt n ≠ [] := by
  cases n with
  | ofNat n => exact digits_ne_nil n
  | negSucc n => exact List.cons_ne_nil _ _

theorem ofDigits_digits (n : Nat) : ofDigits (digits n) = n := by
  have h : ∀ (s : Text) (k : Nat), s.foldl (fun n c => n * 10 + Text.digit c) k =
      Nat.ofDigitChars 10 s k := by
    intro s
    induction s with
    | nil => intro k; rfl
    | cons c s ih => intro k; rw [List.foldl_cons, ih, Nat.ofDigitChars_cons, Nat.mul_comm]; rfl
  rw [ofDigits, h]
  exact Nat.ofDigitChars_ten_toDigits

theorem digits_inj {m n : Nat} (h : digits m = digits n) : m = n := by
  rw [← ofDigits_digits m, h, ofDigits_digits]

/-- Only zero has a leading zero. -/
theorem eq_zero_of_head?_digits {n : Nat} (h : (digits n).head? = some '0') : n = 0 := by
  induction n using Nat.strongRecOn with
  | ind n ih =>
    rw [digits, Nat.toDigits_eq_if (by decide)] at h
    split at h
    · rename_i hn
      have hzero : ∀ d < 10, Nat.digitChar d = '0' → d = 0 := by decide
      exact hzero n hn (Option.some.inj h)
    · rename_i hn
      obtain ⟨c, rest, hs⟩ := List.exists_cons_of_ne_nil (digits_ne_nil (n / 10))
      have := ih (n / 10) (by omega) (by rw [hs]; rwa [← digits, hs] at h)
      omega

theorem readNat?_digits (n : Nat) : readNat? (digits n) = some n := by
  have hn : isNumeral (digits n) = true := by
    simp only [isNumeral, Bool.and_eq_true, Bool.not_eq_true', List.isEmpty_eq_false_iff,
      List.all_eq_true]
    exact ⟨digits_ne_nil n, fun c hc => isDigit_of_mem_digits hc⟩
  rw [readNat?, if_pos hn, ofDigits_digits]

theorem readNat?_eq_some_iff {s : Text} {n : Nat} : readNat? s = some n ↔
    s ≠ [] ∧ (∀ c ∈ s, Text.isDigit c = true) ∧ ofDigits s = n := by
  simp only [readNat?, isNumeral, Option.ite_none_right_eq_some, Bool.and_eq_true,
    Bool.not_eq_true', List.isEmpty_eq_false_iff, List.all_eq_true, Option.some.injEq, and_assoc]

theorem IntType.usize_holds {n : Nat} (h : (n : Int) ≤ usize.greatest) : usize.holds n = true := by
  simp only [holds, Bool.and_eq_true, decide_eq_true_eq]
  exact ⟨Int.natCast_nonneg n, h⟩

/-- What is read is a number of the type. -/
theorem IntType.holds_of_read? {t : IntType} {s : Text} {n : Int} (h : t.read? s = some n) :
    t.holds n = true :=
  (Option.filter_eq_some_iff.1 h).2

/-- A numeral without a sign is read as a whole number where the type has it, whatever the type. -/
theorem IntType.read?_digits_eq (t : IntType) (n : Nat) :
    t.read? (digits n) = (some (n : Int)).filter t.holds := by
  have hd : ∀ c rest, digits n = c :: rest → Text.isDigit c = true :=
    fun c rest e => isDigit_of_mem_digits (n := n) (by simp [e])
  unfold IntType.read?
  split
  · rename_i rest e; exact absurd (hd _ _ e) (by decide)
  · rename_i rest e; exact absurd (hd _ _ e) (by decide)
  · rw [readNat?_digits, Option.map_some, Int.ofNat_eq_natCast]

theorem IntType.read?_digits (t : IntType) {n : Nat} (h : t.holds n = true) :
    t.read? (digits n) = some (n : Int) := by
  rw [read?_digits_eq, Option.filter_some_pos h]

/-- A type reads the numeral of each of its numbers as that number. -/
theorem IntType.read?_writeInt (t : IntType) {n : Int} (h : t.holds n = true) :
    t.read? (writeInt n) = some n := by
  cases n with
  | ofNat n => exact t.read?_digits h
  | negSucc n =>
    have hs : t.signed = true := by
      cases hs : t.signed with
      | true => rfl
      | false =>
        simp only [IntType.holds, IntType.least, hs, Bool.and_eq_true, decide_eq_true_eq,
          Bool.false_eq_true, if_false] at h
        have := h.1
        omega
    simp only [writeInt, IntType.read?, hs, if_true, readNat?_digits]
    show (some (Int.negSucc n)).filter t.holds = some (Int.negSucc n)
    rw [Option.filter_some_pos h]

/-- A type refuses the numeral of each number that it does not have. -/
theorem IntType.read?_writeInt_eq (t : IntType) (n : Int) :
    t.read? (writeInt n) = if t.holds n then some n else none := by
  by_cases h : t.holds n = true
  · rw [if_pos h, t.read?_writeInt h]
  · have hfilter : (some n).filter t.holds = none := Option.filter_some_neg (Bool.eq_false_iff.2 h)
    rw [if_neg h]
    cases n with
    | ofNat n => exact (t.read?_digits_eq n).trans hfilter
    | negSucc n =>
      simp only [writeInt, IntType.read?, readNat?_digits]
      split
      · exact hfilter
      · rfl

end ConfigGraph.Number
