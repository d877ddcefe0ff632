import ConfigGraph.Format.Json.Document
import ConfigGraph.Proofs.Number.Decimal
import ConfigGraph.Proofs.Text

/-!
# Integers in JSON texts

The digits of a number that fits in 64 bits are collected without loss (`Digits.foldl_pushWhole`). So
the numeral of such a number is read as that number (`number?_writeInt`), wherever a value may stand
(`value?_writeInt`).
-/

namespace ConfigGraph.Json

open ConfigGraph.Text (isDigit digit)
open Number (IntType digits ofDigits writeInt)

/-- A numeral does not go on in a text: there is no digit, point or exponent in front of it. -/
def EndsNumeral (rest : Text) : Prop :=
  ∀ c, rest.head? = some c → isDigit c = false ∧ c ≠ '.' ∧ c ≠ 'e' ∧ c ≠ 'E'

/-- Reading more digits makes no number smaller. -/
theorem le_foldl_digit (ds : Text) (w : Nat) : w ≤ ds.foldl (fun n c => n * 10 + digit c) w := by
  induction ds generalizing w with
  | nil => exact Nat.le_refl w
  | cons c ds ih =>
    have := ih (w * 10 + digit c)
    rw [List.foldl_cons]
    omega

/-- Digits of a number that fits in a word are collected one by one, and the word is not full. -/
theorem Digits.foldl_pushWhole (ds : Text) (w : Nat)
    (h : ((ds.foldl (fun n c => n * 10 + digit c) w : Nat) : Int) ≤ IntType.u64.greatest) :
    ds.foldl pushWhole ⟨w, 0, false⟩ = ⟨ds.foldl (fun n c => n * 10 + digit c) w, 0, false⟩ := by
  induction ds generalizing w with
  | nil => rfl
  | cons c ds ih =>
    have hfits : fits ⟨w, 0, false⟩ c = true := by
      have := le_foldl_digit ds (w * 10 + digit c)
      rw [List.foldl_cons] at h
      simp only [fits, IntType.holds, Bool.and_eq_true, decide_eq_true_eq]
      exact ⟨by show (0 : Int) ≤ _; omega, by omega⟩
    have hpush : pushWhole ⟨w, 0, false⟩ c = ⟨w * 10 + digit c, 0, false⟩ := by
      simp [pushWhole, hfits]
    rw [List.foldl_cons, List.foldl_cons, hpush]
    exact ih _ h

section

variable {rest : Text} {n : Nat}

/-- The digits of a number of 64 bits are read as this number, with or without a sign. -/
theorem number?_digits (h : (n : Int) ≤ IntType.u64.greatest) (hrest : EndsNumeral rest)
    (negative : Bool) : number? ((if negative then ['-'] else []) ++ (digits n ++ rest)) =
      (integer? negative ⟨n, 0, false⟩).map (·, rest) := by
  obtain ⟨htake, hdrop⟩ := takeWhile_append_eq (p := isDigit) (r := rest)
    (fun c hc => Number.isDigit_of_mem_digits (n := n) hc) fun c hc => (hrest c hc).1
  have hfold : (digits n).foldl Digits.pushWhole ⟨0, 0, false⟩ = ⟨n, 0, false⟩ := by
    have hvalue : (digits n).foldl (fun n c => n * 10 + digit c) 0 = n := Number.ofDigits_digits n
    rw [Digits.foldl_pushWhole _ _ (by rw [hvalue]; exact h), hvalue]
  have hlead : ((digits n).isEmpty ||
      ((digits n).head? == some '0' && decide (1 < (digits n).length))) = false := by
    rw [List.isEmpty_eq_false_iff.2 (Number.digits_ne_nil n), Bool.false_or, Bool.and_eq_false_iff]
    by_cases hz : (digits n).head? = some '0'
    · rw [Number.eq_zero_of_head?_digits hz]
      exact .inr (by decide)
    · exact .inl (by simpa using hz)
  obtain ⟨c, ds, hds⟩ := List.exists_cons_of_ne_nil (Number.digits_ne_nil n)
  have hc : c ≠ '-' := by
    rintro rfl
    exact Number.not_mem_digits (n := n) (c := '-') rfl (by simp [hds])
  unfold number?
  split
  rename_i sign s hsign
  have hs : sign = negative ∧ s = digits n ++ rest := by
    cases negative with
    | true =>
      cases hsign
      exact ⟨rfl, rfl⟩
    | false =>
      rw [hds] at hsign ⊢
      split at hsign
      · rename_i hminus
        cases hminus
        exact absurd rfl hc
      · cases hsign
        exact ⟨rfl, rfl⟩
  obtain ⟨rfl, rfl⟩ := hs
  simp only [htake, hdrop, hlead, hfold, Bool.false_eq_true, if_false]
  split
  · exact absurd rfl (hrest _ rfl).2.1
  · exact absurd rfl (hrest _ rfl).2.2.1
  · exact absurd rfl (hrest _ rfl).2.2.2
  · rfl

end

section

variable {n : Int} {rest : Text}

/-- The numeral of a number of 64 bits, with or without a sign, is read as this number. -/
theorem number?_writeInt (hlow : IntType.i64.least ≤ n) (hhigh : n ≤ IntType.u64.greatest)
    (hrest : EndsNumeral rest) : number? (writeInt n ++ rest) = some (.integer n, rest) := by
  cases n with
  | ofNat n => exact number?_digits hhigh hrest false
  | negSucc n =>
    have hword : ((n + 1 : Nat) : Int) ≤ IntType.u64.greatest := by
      have : IntType.i64.least = -9223372036854775808 := by decide
      have : IntType.u64.greatest = 18446744073709551615 := by decide
      omega
    have hfits : IntType.i64.holds (-((n + 1 : Nat) : Int)) = true := by
      have : IntType.i64.greatest = 9223372036854775807 := by decide
      simp only [IntType.holds, Bool.and_eq_true, decide_eq_true_eq]
      omega
    have hinteger : integer? true ⟨n + 1, 0, false⟩ = some (.integer (.negSucc n)) := by
      simp only [integer?, hfits]
      rfl
    have hnumber := number?_digits hword hrest true
    rw [hinteger] at hnumber
    exact hnumber

/-- No value but a number starts like the numeral of one. -/
theorem value?_writeInt (hlow : IntType.i64.least ≤ n) (hhigh : n ≤ IntType.u64.greatest)
    (hrest : EndsNumeral rest) (depth : Nat) :
    value? depth (writeInt n ++ rest) = some (.integer n, rest) := by
  obtain ⟨c, tail, hs⟩ := List.exists_cons_of_ne_nil (Number.writeInt_ne_nil n)
  have hc : c = '-' ∨ isDigit c = true := Number.isDigit_of_mem_writeInt (n := n) (by simp [hs])
  have hne : ∀ d front, writeInt n ++ rest = d :: front → c = d := by
    intro d front he
    rw [hs] at he
    exact (List.cons.inj he).1
  unfold value?
  split
  · rename_i he
    exact absurd (hne _ _ he ▸ hc) (by decide)
  · rename_i he
    exact absurd (hne _ _ he ▸ hc) (by decide)
  · rename_i he
    exact absurd (hne _ _ he ▸ hc) (by decide)
  · rw [number?_writeInt hlow hhigh hrest]
    rfl

end

end ConfigGraph.Json
