import ConfigGraph.Number.Literal
import Mathlib.Algebra.Order.Field.Power
import Mathlib.Algebra.Order.Floor.Semifield
import Mathlib.Data.Rat.Floor
import Mathlib.Tactic.FieldSimp
import Mathlib.Tactic.Linarith
import Mathlib.Tactic.Positivity
import Mathlib.Tactic.Ring

/-!
# Rounding to nearest

What the numbers of a binary format stand for, and what rounding does to a rational number: it
leaves the numbers of the format as they are, and it moves any other number by half a unit in the last
place at most (`BinaryFormat.round_stands`). The sum and the product of two numbers are their exact sum
and product, rounded once. A number that is rounded several times stays near (`BinaryFormat.Near`).
-/

namespace ConfigGraph.Number

/-- A floating-point number stands for a number that is not negative. -/
def Binary.Stands (x : Binary) (a : ℚ) : Prop :=
  ∃ m e, x = .finite false m e ∧ (m : ℚ) * 2 ^ e = a

namespace BinaryFormat

/-- The formats that have more than one bit and more than one exponent. -/
structure Proper (f : BinaryFormat) : Prop where
  precision : 0 < f.precision
  exponents : f.least < f.greatest

/-- A number fits into the bits of a format. It may be too great for it. -/
def Has (f : BinaryFormat) (a : ℚ) : Prop :=
  ∃ (m : Nat) (e : Int), m < 2 ^ f.precision ∧ f.least ≤ e ∧ a = m * 2 ^ e

/-- Half a unit in the last place of `1`. -/
def roundoff (f : BinaryFormat) : ℚ :=
  2 ^ (-f.precision : Int)

/-- Half of the least positive number. -/
def underflow (f : BinaryFormat) : ℚ :=
  2 ^ (f.least - 1)

/-- The second number is the first one, rounded. -/
structure Rounds (f : BinaryFormat) (a b : ℚ) : Prop where
  error : |b - a| ≤ f.roundoff * a + f.underflow
  exact : f.Has a → b = a

/-- The exponent of the last place that is kept of a quotient. -/
def place (f : BinaryFormat) (num den : Nat) : Int :=
  max f.least (floorLog2 num den - (f.precision - 1 : Nat))

end BinaryFormat

section

variable {num den m n : Nat} {e : Int} {a b : ℚ} {x y : Binary} {f : BinaryFormat}

/-! ## Powers of two -/

theorem natCast_zpow (k : Nat) (e : Int) :
    (k : ℚ) ^ e = (Nat.pow k e.toNat : Nat) / (Nat.pow k (-e).toNat : Nat) := by
  rcases le_total 0 e with he | he
  · obtain ⟨n, rfl⟩ := Int.eq_ofNat_of_zero_le he
    simp
  · obtain ⟨n, hn⟩ := Int.eq_ofNat_of_zero_le (Int.neg_nonneg.2 he)
    obtain rfl : e = -n := by omega
    simp

theorem two_zpow_eq (e : Int) :
    (2 : ℚ) ^ e = (Nat.pow 2 e.toNat : Nat) / (Nat.pow 2 (-e).toNat : Nat) :=
  natCast_zpow 2 e

/-- A quotient in units of a power of two. -/
theorem div_two_zpow (num den : Nat) (e : Int) :
    ((num * Nat.pow 2 (-e).toNat : Nat) : ℚ) / (den * Nat.pow 2 e.toNat : Nat) =
      num / den / 2 ^ e := by
  rw [two_zpow_eq, Nat.cast_mul, Nat.cast_mul, mul_div_mul_comm, div_div_eq_mul_div, mul_div_assoc]

theorem scaled_div (m : Nat) (e : Int) : ((scaled m e).1 : ℚ) / (scaled m e).2 = m * 2 ^ e := by
  rw [two_zpow_eq, scaled, Nat.cast_mul, mul_div_assoc]

theorem scaled_pos (m : Nat) (e : Int) : 0 < (scaled m e).2 :=
  Nat.two_pow_pos _

/-! ## Whole numbers -/

/-- A quotient is rounded by a half at most. -/
theorem roundDiv_error (num : Nat) (hden : 0 < den) :
    |(roundDiv num den : ℚ) - num / den| ≤ 1 / 2 := by
  have hbounds : 2 * (roundDiv num den * den) ≤ 2 * num + den ∧
      2 * num ≤ 2 * (roundDiv num den * den) + den := by
    have hnum := Nat.div_add_mod num den
    have hr := Nat.mod_lt num hden
    rw [Nat.mul_comm] at hnum
    simp only [roundDiv]
    generalize num / den = q at *
    generalize num % den = r at *
    split
    · omega
    · split
      · rw [Nat.add_mul]
        omega
      · rcases Nat.mod_two_eq_zero_or_one q with h | h <;> rw [h, Nat.add_mul] <;> omega
  have hpos : (0 : ℚ) < den := Nat.cast_pos.2 hden
  have hlow : (2 : ℚ) * (roundDiv num den * den) ≤ 2 * num + den := by exact_mod_cast hbounds.1
  have hhigh : (2 : ℚ) * num ≤ 2 * (roundDiv num den * den) + den := by exact_mod_cast hbounds.2
  rw [abs_le, neg_le_sub_iff_le_add, sub_le_iff_le_add, div_le_iff₀ hpos, ← sub_le_iff_le_add',
    le_div_iff₀ hpos]
  constructor <;> linarith

/-- Whole quotients are not rounded. -/
theorem roundDiv_eq {k : Nat} (hden : 0 < den) (h : (num : ℚ) / den = k) :
    roundDiv num den = k := by
  have hnum : num = k * den := by
    rw [div_eq_iff (Nat.cast_ne_zero.2 hden.ne')] at h
    exact_mod_cast h
  rw [hnum, roundDiv, Nat.mul_div_cancel k hden, Nat.mul_mod_left, if_pos hden]

theorem log2_spec (hn : n ≠ 0) :
    (2 : ℚ) ^ (n.log2 : Int) ≤ n ∧ (n : ℚ) < 2 ^ (n.log2 + 1 : Int) := by
  have hhigh : (n.log2 : Int) + 1 = (n.log2 + 1 : Nat) := rfl
  rw [hhigh, zpow_natCast, zpow_natCast]
  exact ⟨by exact_mod_cast Nat.log2_self_le hn, by exact_mod_cast Nat.lt_log2_self⟩

theorem floorLog2_spec (hnum : num ≠ 0) (hden : den ≠ 0) :
    (2 : ℚ) ^ floorLog2 num den ≤ num / den ∧ (num : ℚ) / den < 2 ^ (floorLog2 num den + 1) := by
  obtain ⟨hnlow, hnhigh⟩ := log2_spec hnum
  obtain ⟨hdlow, hdhigh⟩ := log2_spec hden
  have hpos : (0 : ℚ) < den := Nat.cast_pos.2 (Nat.pos_of_ne_zero hden)
  have hcheck : ∀ k : Int, den * Nat.pow 2 k.toNat ≤ num * Nat.pow 2 (-k).toNat ↔
      (2 : ℚ) ^ k ≤ num / den := by
    intro k
    have hk : (0 : ℚ) < (Nat.pow 2 (-k).toNat : Nat) := Nat.cast_pos.2 (Nat.two_pow_pos _)
    rw [two_zpow_eq, div_le_div_iff₀ hk hpos, ← Nat.cast_mul, ← Nat.cast_mul, Nat.cast_le,
      mul_comm den]
  have hlow : (2 : ℚ) ^ ((num.log2 : Int) - den.log2 - 1) ≤ num / den := by
    rw [sub_sub, zpow_sub₀ two_ne_zero]
    exact div_le_div₀ (Nat.cast_nonneg _) hnlow hpos hdhigh.le
  have hhigh : (num : ℚ) / den < 2 ^ ((num.log2 : Int) - den.log2 + 1) := by
    rw [sub_add_eq_add_sub, zpow_sub₀ two_ne_zero]
    exact div_lt_div₀ hnhigh hdlow (by positivity) (by positivity)
  simp only [floorLog2, hcheck]
  split
  · rename_i h
    exact ⟨h, hhigh⟩
  · rename_i h
    rw [sub_add_cancel]
    exact ⟨hlow, not_le.1 h⟩

/-! ## Rounding -/

theorem BinaryFormat.underflow_pos (f : BinaryFormat) : 0 < f.underflow := by
  unfold underflow
  positivity

theorem BinaryFormat.roundoff_nonneg (f : BinaryFormat) : 0 ≤ f.roundoff := by
  unfold roundoff
  positivity

/-- The last place that is kept is small against the quotient, unless it is the least one. -/
theorem BinaryFormat.two_zpow_place (hp : f.Proper) (hnum : num ≠ 0) (hden : den ≠ 0) :
    (2 : ℚ) ^ f.place num den ≤ 2 * (f.roundoff * (num / den) + f.underflow) := by
  have hrelative : 0 ≤ f.roundoff * ((num : ℚ) / den) :=
    mul_nonneg f.roundoff_nonneg (by positivity)
  have habsolute := f.underflow_pos
  have hprecision := hp.precision
  rcases max_choice f.least (floorLog2 num den - (f.precision - 1 : Nat)) with h | h
  · have hleast : (2 : ℚ) ^ f.least = 2 * f.underflow := by
      rw [underflow, ← zpow_one_add₀ two_ne_zero, add_sub_cancel]
    rw [place, h, hleast]
    linarith
  · have hplace : floorLog2 num den - (f.precision - 1 : Nat) =
        1 + ((-f.precision : Int) + floorLog2 num den) := by omega
    have hlow := mul_le_mul_of_nonneg_left (floorLog2_spec hnum hden).1 f.roundoff_nonneg
    rw [place, h, hplace, zpow_one_add₀ two_ne_zero, zpow_add₀ two_ne_zero, ← roundoff]
    linarith

/-- A number that fits into the bits of the format is a whole number of its last places. -/
theorem BinaryFormat.Has.exists_place (hp : f.Proper) (hnum : num ≠ 0) (hden : den ≠ 0)
    (h : f.Has (num / den)) : ∃ k : Nat, (num : ℚ) / den = k * 2 ^ f.place num den := by
  obtain ⟨m, e, hm, he, ha⟩ := h
  have hplace : f.place num den ≤ e := by
    have hbits : (m : ℚ) < 2 ^ (f.precision : Int) := by
      rw [zpow_natCast]
      exact_mod_cast hm
    have hlog : (2 : ℚ) ^ floorLog2 num den < 2 ^ (f.precision + e) := by
      refine (floorLog2_spec hnum hden).1.trans_lt ?_
      rw [ha, zpow_add₀ two_ne_zero]
      exact mul_lt_mul_of_pos_right hbits (by positivity)
    have hlt := (zpow_lt_zpow_iff_right₀ one_lt_two).1 hlog
    have hprecision := hp.precision
    exact max_le he (by omega)
  refine ⟨m * 2 ^ (e - f.place num den).toNat, ?_⟩
  have hsplit : e = ((e - f.place num den).toNat : Int) + f.place num den := by omega
  rw [ha, Nat.cast_mul, mul_assoc, Nat.cast_pow, Nat.cast_ofNat, ← zpow_natCast,
    ← zpow_add₀ two_ne_zero, ← hsplit]

/-- Rounding gives a whole number of last places. -/
theorem BinaryFormat.round_eq (hp : f.Proper) (hnum : num ≠ 0) (hden : den ≠ 0)
    (hlt : (num : ℚ) / den < 2 ^ (f.greatest + f.precision - 1)) :
    (f.round false num den).Stands
      (roundDiv (num * Nat.pow 2 (-f.place num den).toNat)
          (den * Nat.pow 2 (f.place num den).toNat) * 2 ^ f.place num den) := by
  have hlog := (zpow_lt_zpow_iff_right₀ one_lt_two).1 ((floorLog2_spec hnum hden).1.trans_lt hlt)
  have hplace : f.place num den < f.greatest := by
    have hprecision := hp.precision
    exact max_lt hp.exponents (by omega)
  have hmax : (if floorLog2 num den - (f.precision - 1 : Nat) < f.least then f.least
      else floorLog2 num den - (f.precision - 1 : Nat)) = f.place num den := by
    rw [place]
    split <;> omega
  simp only [round, if_neg hnum, hmax]
  generalize roundDiv _ _ = k
  by_cases hk : k = Nat.pow 2 f.precision
  · -- the last place moves up by one where all bits are carried
    refine ⟨Nat.pow 2 (f.precision - 1), f.place num den + 1, ?_, ?_⟩
    · rw [if_pos hk]
      exact if_neg (by simp only; omega)
    · have hbits : k = Nat.pow 2 (f.precision - 1) * 2 := by
        rw [hk]
        exact congrArg (Nat.pow 2) (Nat.sub_one_add_one hp.precision.ne').symm
      rw [hbits, Nat.cast_mul, zpow_add_one₀ two_ne_zero]
      push_cast
      ring
  · refine ⟨k, f.place num den, ?_, rfl⟩
    rw [if_neg hk]
    exact if_neg (by simp only; omega)

/-- A quotient that is not too great is rounded to a number of the format that is near to it, and it is
left as it is where it fits into the bits of the format. -/
theorem BinaryFormat.round_stands (hp : f.Proper) (num : Nat) (hden : den ≠ 0)
    (hlt : (num : ℚ) / den < 2 ^ (f.greatest + f.precision - 1)) :
    ∃ b, (f.round false num den).Stands b ∧ f.Rounds (num / den) b := by
  by_cases hnum : num = 0
  · subst hnum
    refine ⟨0, ⟨0, f.least, by rw [round, if_pos rfl], by simp⟩, ?_, fun _ => by simp⟩
    simpa using f.underflow_pos.le
  have hplace : (0 : ℚ) < 2 ^ f.place num den := by positivity
  have hunit := div_two_zpow num den (f.place num den)
  have hpos : 0 < den * Nat.pow 2 (f.place num den).toNat :=
    Nat.mul_pos (Nat.pos_of_ne_zero hden) (Nat.two_pow_pos _)
  refine ⟨_, round_eq hp hnum hden hlt, ?_, fun h => ?_⟩
  · have herror := roundDiv_error (num * Nat.pow 2 (-f.place num den).toNat) hpos
    have hbound := two_zpow_place hp hnum hden
    rw [hunit] at herror
    generalize (roundDiv _ _ : ℚ) = r at *
    have hscale : r * 2 ^ f.place num den - num / den =
        (r - num / den / 2 ^ f.place num den) * 2 ^ f.place num den := by
      field_simp
    rw [hscale, abs_mul, abs_of_pos hplace]
    have := mul_le_mul_of_nonneg_right herror hplace.le
    linarith
  · obtain ⟨k, hk⟩ := h.exists_place hp hnum hden
    rw [roundDiv_eq hpos (by rw [hunit, hk, mul_div_cancel_right₀ _ hplace.ne']), ← hk]

/-- A positive number of the format is greater than half of the least one. -/
theorem BinaryFormat.Has.underflow_lt (h : f.Has a) (ha : 0 < a) : f.underflow < a := by
  obtain ⟨m, e, -, he, rfl⟩ := h
  have hm : (1 : ℚ) ≤ m := by
    have hpos : 0 < (m : ℚ) := (pos_iff_pos_of_mul_pos ha).2 (by positivity)
    exact_mod_cast hpos
  calc f.underflow < 2 ^ e := zpow_lt_zpow_right₀ one_lt_two (by omega)
    _ ≤ m * 2 ^ e := le_mul_of_one_le_left (by positivity) hm

/-! ## Operations -/

theorem Binary.Stands.nonneg (h : x.Stands a) : 0 ≤ a := by
  obtain ⟨m, e, -, rfl⟩ := h
  positivity

theorem BinaryFormat.ofNat_stands (hp : f.Proper) (n : Nat)
    (hlt : (n : ℚ) < 2 ^ (f.greatest + f.precision - 1)) :
    ∃ b, (f.ofNat n).Stands b ∧ f.Rounds n b := by
  have hone : (n : ℚ) / (1 : Nat) = n := by rw [Nat.cast_one, div_one]
  have hround := round_stands hp n one_ne_zero (by rwa [hone])
  rwa [hone] at hround

/-- A product is the exact one, rounded. -/
theorem BinaryFormat.mul_stands (hp : f.Proper) (hx : x.Stands a) (hy : y.Stands b)
    (hlt : a * b < 2 ^ (f.greatest + f.precision - 1)) :
    ∃ c, (f.mul x y).Stands c ∧ f.Rounds (a * b) c := by
  obtain ⟨m, d, rfl, rfl⟩ := hx
  obtain ⟨n, e, rfl, rfl⟩ := hy
  have hexact : ((scaled (m * n) (d + e)).1 : ℚ) / (scaled (m * n) (d + e)).2 =
      m * 2 ^ d * (n * 2 ^ e) := by
    rw [scaled_div, zpow_add₀ two_ne_zero, Nat.cast_mul]
    ring
  have hround := round_stands hp _ (scaled_pos (m * n) (d + e)).ne' (by rwa [hexact])
  rwa [hexact] at hround

/-- A sum is the exact one, rounded. -/
theorem BinaryFormat.add_stands (hp : f.Proper) (hx : x.Stands a) (hy : y.Stands b)
    (hlt : a + b < 2 ^ (f.greatest + f.precision - 1)) :
    ∃ c, (f.add x y).Stands c ∧ f.Rounds (a + b) c := by
  obtain ⟨m, d, rfl, rfl⟩ := hx
  obtain ⟨n, e, rfl, rfl⟩ := hy
  obtain ⟨low, hlow⟩ : ∃ low, (if d < e then d else e) = low := ⟨_, rfl⟩
  have hd : d = (d - low).toNat + low := by split at hlow <;> omega
  have he : e = (e - low).toNat + low := by split at hlow <;> omega
  obtain ⟨k, hk⟩ : ∃ k, m * Nat.pow 2 (d - low).toNat + n * Nat.pow 2 (e - low).toNat = k :=
    ⟨_, rfl⟩
  have hsum : signedInt false (m * Nat.pow 2 (d - low).toNat) +
      signedInt false (n * Nat.pow 2 (e - low).toNat) = k := by
    rw [← hk]
    rfl
  have hexact : ((scaled k low).1 : ℚ) / (scaled k low).2 = m * 2 ^ d + n * 2 ^ e := by
    have hpower : ∀ i : Nat, ((Nat.pow 2 i : Nat) : ℚ) = 2 ^ (i : Int) := fun i => by simp
    rw [scaled_div, ← hk, hd, he, Nat.cast_add, Nat.cast_mul, Nat.cast_mul, hpower, hpower, add_mul,
      mul_assoc, mul_assoc, ← zpow_add₀ two_ne_zero, ← zpow_add₀ two_ne_zero]
    congr 4 <;> omega
  have hround := round_stands hp _ (scaled_pos k low).ne' (by rwa [hexact])
  rw [hexact] at hround
  have hsign : (if (k : Int) = 0 then false && false else decide ((k : Int) < 0)) = false := by
    split
    · rfl
    · exact decide_eq_false (by omega)
  simp only [add, hlow, hsum, hsign, Int.natAbs_natCast]
  exact hround

/-- What is cut off below `10 ^ -400` is less than half of the least number. -/
theorem mul_ten_zpow_lt (hleast : -1300 ≤ f.least) (hlead : e + (n.log2 / 3 : Nat) < -400) :
    (n : ℚ) * 10 ^ e < f.underflow := by
  have hn : (n : ℚ) < 10 ^ (n.log2 / 3 + 1 : Int) := by
    have hlog : n < 2 ^ (3 * (n.log2 / 3 + 1)) :=
      Nat.lt_log2_self.trans_le (Nat.pow_le_pow_right two_pos (by omega))
    have hten : n < 10 ^ (n.log2 / 3 + 1) := by
      refine hlog.trans_le ?_
      rw [Nat.pow_mul]
      exact Nat.pow_le_pow_left (by decide) _
    exact_mod_cast hten
  calc (n : ℚ) * 10 ^ e
      < 10 ^ (n.log2 / 3 + 1 : Int) * 10 ^ e := mul_lt_mul_of_pos_right hn (by positivity)
    _ = 10 ^ ((n.log2 / 3 + 1 : Int) + e) := (zpow_add₀ (by norm_num) _ _).symm
    _ ≤ 10 ^ (-400 : Int) := zpow_le_zpow_right₀ (by norm_num) (by omega)
    _ = (10 ^ (-10 : Int)) ^ (40 : Int) := by rw [← zpow_mul]; rfl
    _ ≤ (2 ^ (-33 : Int)) ^ (40 : Int) :=
        zpow_le_zpow_left₀ (by norm_num) (by positivity) (by norm_num)
    _ = 2 ^ (-1320 : Int) := by rw [← zpow_mul]; rfl
    _ ≤ f.underflow := zpow_le_zpow_right₀ one_le_two (by omega)

/-- A decimal number is rounded once. -/
theorem BinaryFormat.ofDecimal_stands (hp : f.Proper) (hleast : -1300 ≤ f.least) (n : Nat)
    (he : e ≤ 400) (hlt : (n : ℚ) * 10 ^ e < 2 ^ (f.greatest + f.precision - 1)) :
    ∃ b, (f.ofDecimal false n e).Stands b ∧ f.Rounds (n * 10 ^ e) b := by
  rw [ofDecimal]
  by_cases hn : n = 0
  · subst hn
    refine ⟨0, ⟨0, f.least, by rw [if_pos rfl], by simp⟩, ?_, fun _ => by simp⟩
    simpa using f.underflow_pos.le
  rw [if_neg hn, if_neg (not_lt.2 he)]
  split
  · rename_i hlead
    have hsmall := mul_ten_zpow_lt hleast hlead
    have hnonneg : 0 ≤ (n : ℚ) * 10 ^ e := by positivity
    refine ⟨0, ⟨0, f.least, rfl, by simp⟩, ?_, fun hhas => ?_⟩
    · rw [zero_sub, abs_neg, abs_of_nonneg hnonneg]
      have := mul_nonneg f.roundoff_nonneg hnonneg
      linarith
    · have := hhas.underflow_lt (by positivity)
      linarith
  · have hten : (10 : ℚ) ^ e = (Nat.pow 10 e.toNat : Nat) / (Nat.pow 10 (-e).toNat : Nat) :=
      natCast_zpow 10 e
    have hexact : ((n * Nat.pow 10 e.toNat : Nat) : ℚ) / (Nat.pow 10 (-e).toNat : Nat) =
        n * 10 ^ e := by
      rw [hten, Nat.cast_mul, mul_div_assoc]
    have hden : Nat.pow 10 (-e).toNat ≠ 0 := (Nat.pow_pos (by decide)).ne'
    have hround := round_stands hp _ hden (by rwa [hexact])
    rwa [hexact] at hround

/-- The whole part of a number, up to a bound. -/
theorem Binary.Stands.clampToNat_eq (h : x.Stands a) (max : Nat) :
    x.clampToNat max = min ⌊a⌋₊ max := by
  obtain ⟨m, e, rfl, rfl⟩ := h
  rw [← scaled_div, Nat.floor_div_eq_div]
  simp only [clampToNat, Bool.false_eq_true, if_false]
  split <;> omega

/-! ## Several roundings -/

namespace BinaryFormat

/-- A number is what another one becomes in some roundings, but for a small rest. -/
structure Near (f : BinaryFormat) (k : Nat) (w a b : ℚ) : Prop where
  low : (1 - f.roundoff) ^ k * a - w ≤ b
  high : b ≤ (1 + f.roundoff) ^ k * (a + w)

variable {k l : Nat} {a' b' c w w' : ℚ}

theorem roundoff_le_one (f : BinaryFormat) : f.roundoff ≤ 1 :=
  zpow_le_one_of_nonpos₀ one_le_two (by omega)

theorem Near.refl (f : BinaryFormat) (a : ℚ) : f.Near 0 0 a a :=
  ⟨by simp, by simp⟩

theorem Near.mono (h : f.Near k w a b) (ha : 0 ≤ a) (hw : 0 ≤ w) (hk : k ≤ l) (hw' : w ≤ w') :
    f.Near l w' a b := by
  have hu := f.roundoff_nonneg
  have hu' := f.roundoff_le_one
  refine ⟨le_trans ?_ h.low, h.high.trans ?_⟩
  · have := mul_le_mul_of_nonneg_right (pow_le_pow_of_le_one (by linarith : 0 ≤ 1 - f.roundoff)
      (by linarith) hk) ha
    linarith
  · have hpow : (1 + f.roundoff) ^ k ≤ (1 + f.roundoff) ^ l := pow_le_pow_right₀ (by linarith) hk
    gcongr

theorem Near.add (h : f.Near k w a b) (h' : f.Near k w' a' b') :
    f.Near k (w + w') (a + a') (b + b') := by
  refine ⟨?_, ?_⟩
  · have := add_le_add h.low h'.low
    linarith
  · have := add_le_add h.high h'.high
    linarith

/-- Both numbers can be scaled by what is not negative. -/
theorem Near.mul (h : f.Near k w a b) (hc : 0 ≤ c) : f.Near k (w * c) (a * c) (b * c) := by
  refine ⟨?_, ?_⟩
  · have := mul_le_mul_of_nonneg_right h.low hc
    linarith
  · have := mul_le_mul_of_nonneg_right h.high hc
    linarith

/-- One rounding more. -/
theorem Near.rounds (h : f.Near k w a b) (hw : 0 ≤ w) (hc : f.Rounds b c) :
    f.Near (k + 1) (w + f.underflow) a c := by
  have hu := f.roundoff_nonneg
  have hu' := f.roundoff_le_one
  have herror := abs_sub_le_iff.1 hc.error
  refine ⟨?_, ?_⟩
  · have hscaled := mul_le_mul_of_nonneg_left h.low (by linarith : 0 ≤ 1 - f.roundoff)
    have hrest : (1 - f.roundoff) * w ≤ w := mul_le_of_le_one_left hw (by linarith)
    calc (1 - f.roundoff) ^ (k + 1) * a - (w + f.underflow)
        ≤ (1 - f.roundoff) * ((1 - f.roundoff) ^ k * a - w) - f.underflow := by
          rw [pow_succ']
          linarith
      _ ≤ c := by linarith
  · have hscaled := mul_le_mul_of_nonneg_left h.high (by linarith : 0 ≤ 1 + f.roundoff)
    have hrest : f.underflow ≤ (1 + f.roundoff) ^ (k + 1) * f.underflow :=
      le_mul_of_one_le_left f.underflow_pos.le (one_le_pow₀ (by linarith))
    calc c ≤ (1 + f.roundoff) * ((1 + f.roundoff) ^ k * (a + w)) + f.underflow := by linarith
      _ ≤ (1 + f.roundoff) ^ (k + 1) * (a + (w + f.underflow)) := by
          rw [← add_assoc, mul_add _ (a + w), pow_succ' _ k, mul_assoc]
          rw [pow_succ', mul_assoc] at hrest
          linarith

theorem one_sub_roundoff_pow_ge (f : BinaryFormat) (k : Nat) :
    1 - k * f.roundoff ≤ (1 - f.roundoff) ^ k := by
  have hbernoulli := one_add_mul_le_pow (by linarith [f.roundoff_le_one] : -2 ≤ -f.roundoff) k
  rwa [mul_neg, ← sub_eq_add_neg, ← sub_eq_add_neg] at hbernoulli

theorem one_add_roundoff_pow_le (hk : k * f.roundoff ≤ 1 / 4) :
    (1 + f.roundoff) ^ k ≤ 1 + 4 / 3 * (k * f.roundoff) := by
  have hu := f.roundoff_nonneg
  have hu' := f.roundoff_le_one
  have hx : 0 ≤ k * f.roundoff := by positivity
  have hpositive : 0 < 1 - k * f.roundoff := by linarith
  refine le_of_mul_le_mul_right ?_ hpositive
  -- the one power undoes the other, but for a square
  calc (1 + f.roundoff) ^ k * (1 - k * f.roundoff)
      ≤ (1 + f.roundoff) ^ k * (1 - f.roundoff) ^ k := by
        gcongr
        exact f.one_sub_roundoff_pow_ge k
    _ = (1 - f.roundoff ^ 2) ^ k := by
        rw [← mul_pow]
        ring
    _ ≤ 1 := pow_le_one₀ (by nlinarith) (by nlinarith)
    _ ≤ (1 + 4 / 3 * (k * f.roundoff)) * (1 - k * f.roundoff) := by nlinarith

/-- A few roundings do not move a number far. -/
theorem Near.error (h : f.Near k w a b) (ha : 0 ≤ a) (hw : 0 ≤ w) (hk : k * f.roundoff ≤ 1 / 4) :
    |b - a| ≤ 4 / 3 * (k * f.roundoff * a) + 2 * w := by
  have hx : 0 ≤ k * f.roundoff * a := mul_nonneg (mul_nonneg k.cast_nonneg f.roundoff_nonneg) ha
  refine abs_sub_le_iff.2 ⟨?_, ?_⟩
  · have hrest : k * f.roundoff * w ≤ 1 / 4 * w := mul_le_mul_of_nonneg_right hk hw
    have hscaled := mul_le_mul_of_nonneg_right (one_add_roundoff_pow_le hk) (add_nonneg ha hw)
    linarith [h.high]
  · have hscaled := mul_le_mul_of_nonneg_right (f.one_sub_roundoff_pow_ge k) ha
    linarith [h.low]

end BinaryFormat

/-! ## Double precision -/

theorem binary64_proper : binary64.Proper :=
  ⟨by decide, by decide⟩

theorem binary64_roundoff : binary64.roundoff = 1 / 2 ^ 53 := by
  rw [BinaryFormat.roundoff, zpow_neg, one_div]
  rfl

theorem binary64_underflow_le : binary64.underflow ≤ 1 / 2 ^ 200 := by
  rw [one_div, ← zpow_natCast, ← zpow_neg]
  exact zpow_le_zpow_right₀ one_le_two (by decide)

/-- What is far below the greatest number of double precision. -/
theorem lt_binary64_overflow (ha : a ≤ 2 ^ 67) :
    a < 2 ^ (binary64.greatest + binary64.precision - 1) := by
  refine ha.trans_lt ?_
  rw [← zpow_natCast]
  exact zpow_lt_zpow_right₀ one_lt_two (by decide)

theorem binary64_zero_stands : (binary64.ofNat 0).Stands 0 :=
  ⟨0, _, rfl, by simp⟩

/-- So few roundings do not move a number by more than a quarter. -/
theorem mul_binary64_roundoff_le {k : Nat} (hk : k ≤ Nat.pow 2 51) :
    k * binary64.roundoff ≤ 1 / 4 := by
  have hk' : (k : ℚ) ≤ 2 ^ 51 := by exact_mod_cast hk
  rw [binary64_roundoff]
  linarith

/-- A whole multiple of a power of two that is not too great a one. -/
theorem binary64_has {i k : Nat} (hi : i ≤ 1074) (hk : a * 2 ^ i = k) (ha : a * 2 ^ i ≤ 2 ^ 53) :
    binary64.Has a := by
  have hi' : (2 : ℚ) ^ i ≠ 0 := by positivity
  have ha' : a = k * 2 ^ (-i : Int) := by
    rw [← hk, zpow_neg, zpow_natCast, mul_inv_cancel_right₀ hi']
  have hle : k ≤ 2 ^ 53 := by
    rw [hk] at ha
    exact_mod_cast ha
  have hleast : binary64.least = -1074 := rfl
  rcases hle.lt_or_eq with hlt | heq
  · exact ⟨k, -i, hlt, by omega, ha'⟩
  · refine ⟨2 ^ 52, 1 - i, by decide, by omega, ?_⟩
    rw [ha', heq, sub_eq_add_neg, zpow_add₀ two_ne_zero, ← mul_assoc]
    norm_num

end

end ConfigGraph.Number
