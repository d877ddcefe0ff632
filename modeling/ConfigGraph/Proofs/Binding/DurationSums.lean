import ConfigGraph.Proofs.Binding.Durations
import ConfigGraph.Proofs.Number.Rounding
import Mathlib.Algebra.BigOperators.Group.List.Basic
import Mathlib.Algebra.Order.BigOperators.Group.List

/-!
# Sums of durations

The components of a duration stand for nanoseconds (`Component.nanos`). They are added up in double
precision and cut off to whole nanoseconds. So a duration is exact where each component comes out as it
is and no sum on the way needs more than the bits of double precision (`Component.total_stands`). Else
it is off by what is rounded on the way, and by the nanosecond that is cut off then
(`Component.read_near`).
-/

namespace ConfigGraph

namespace Duration

open Number (Binary BinaryFormat IntType binary64 ofDigits places)

namespace Component

/-- The number of units. -/
def count (c : Component) : ℚ :=
  ofDigits (c.number.filter Text.isDigit) * 10 ^ (-(places c.number) : Int)

/-- The nanoseconds of a unit. -/
def scale (c : Component) : Nat :=
  (unit? c.unit).getD 0

/-- The nanoseconds that a component stands for. -/
def nanos (c : Component) : ℚ :=
  c.count * c.scale

/-- The nanoseconds that some components stand for. -/
def sum (cs : List Component) : ℚ :=
  (cs.map nanos).sum

/-- Each component is measured as what it stands for, and no sum on the way has to be rounded. -/
structure Exact (cs : List Component) : Prop where
  measure : ∀ c ∈ cs, c.measure.Stands c.nanos
  sum : ∀ front, front <+: cs → binary64.Has (sum front)

section

variable {c : Component} {cs : List Component} {x : Binary} {a : ℚ} {n : Nat}

theorem count_eq {p : Nat} (hn : ofDigits (c.number.filter Text.isDigit) = n)
    (hp : places c.number = p) : c.count = n * 10 ^ (-p : Int) := by
  rw [count, hn, hp]

theorem count_nonneg (c : Component) : 0 ≤ c.count := by
  unfold count
  positivity

theorem nanos_nonneg (c : Component) : 0 ≤ c.nanos :=
  mul_nonneg c.count_nonneg c.scale.cast_nonneg

theorem sum_nonneg (cs : List Component) : 0 ≤ sum cs :=
  List.sum_nonneg fun a ha => by
    obtain ⟨c, -, rfl⟩ := List.mem_map.1 ha
    exact c.nanos_nonneg

theorem sum_append (cs ds : List Component) : sum (cs ++ ds) = sum cs + sum ds := by
  rw [sum, List.map_append, List.sum_append]
  rfl

theorem sum_front_le {front : List Component} (h : front <+: cs) : sum front ≤ sum cs := by
  obtain ⟨rest, rfl⟩ := h
  rw [sum_append]
  exact le_add_of_nonneg_right (sum_nonneg rest)

theorem nanos_le_sum (h : c ∈ cs) : c.nanos ≤ sum cs := by
  obtain ⟨front, rest, rfl⟩ := List.append_of_mem h
  have hcons : sum (c :: rest) = c.nanos + sum rest := rfl
  have := sum_nonneg front
  have := sum_nonneg rest
  rw [sum_append, hcons]
  linarith

theorem scale_bounds (h : c.Valid) : 1 ≤ c.scale ∧ c.scale < Nat.pow 2 47 := by
  have hunits : ∀ u ∈ units, 1 ≤ (unit? u).getD 0 ∧ (unit? u).getD 0 < Nat.pow 2 47 := by decide
  exact hunits c.unit h.unit

theorem count_le_nanos (h : c.Valid) : c.count ≤ c.nanos :=
  le_mul_of_one_le_right c.count_nonneg (Nat.one_le_cast.2 (scale_bounds h).1)

/-! ## Roundings on the way -/

/-- The nanoseconds of a component are rounded twice. -/
theorem measure_stands (hv : c.Valid) (ha : c.nanos ≤ 2 ^ 64) :
    ∃ r b, binary64.Rounds c.count r ∧ binary64.Rounds (r * c.scale) b ∧ c.measure.Stands b := by
  obtain ⟨hone, hscale⟩ := scale_bounds hv
  have hscale' : (c.scale : ℚ) ≤ 2 ^ 47 := by exact_mod_cast hscale.le
  have hcount := count_le_nanos hv
  obtain ⟨r, hr, (hround : binary64.Rounds c.count r)⟩ :=
    binary64.ofDecimal_stands Number.binary64_proper (by decide)
      (ofDigits (c.number.filter Text.isDigit)) (e := -(places c.number)) (by omega)
      (Number.lt_binary64_overflow ((hcount.trans ha).trans (by norm_num)))
  have hread : (binary64.read? c.number).getD .nan =
      binary64.ofDecimal false (ofDigits (c.number.filter Text.isDigit)) (-(places c.number : Int)) := by
    rw [binary64.read?_of_isDecimal hv.number]
    rfl
  obtain ⟨u, hu, hexact⟩ := binary64.ofNat_stands Number.binary64_proper c.scale
    (Number.lt_binary64_overflow (hscale'.trans (by norm_num)))
  have hscaled : u = c.scale :=
    hexact.exact ⟨c.scale, 0, hscale.trans (by decide), by decide, by rw [zpow_zero, mul_one]⟩
  have hproduct : r * c.scale ≤ 2 ^ 67 := by
    have herror := (abs_sub_le_iff.1 hround.error).1
    have hrelative := mul_le_of_le_one_left c.count_nonneg binary64.roundoff_le_one
    have hr : r ≤ 2 * c.count + 1 := by linarith [Number.binary64_underflow_le]
    calc r * c.scale ≤ (2 * c.count + 1) * c.scale := by gcongr
      _ = 2 * c.nanos + c.scale := by rw [nanos]; ring
      _ ≤ 2 ^ 67 := by linarith
  obtain ⟨b, hb, hround'⟩ := binary64.mul_stands Number.binary64_proper hr (hscaled ▸ hu)
    (Number.lt_binary64_overflow hproduct)
  refine ⟨r, b, hround, hround', ?_⟩
  rw [measure, hread]
  exact hb

theorem total_append (cs : List Component) (c : Component) :
    total x (cs ++ [c]) = binary64.add (total x cs) c.measure :=
  List.foldl_append

theorem sum_snoc (cs : List Component) (c : Component) : sum (cs ++ [c]) = sum cs + c.nanos := by
  rw [sum_append]
  exact congrArg _ (add_zero _)

/-- What needs no rounding is measured exactly. -/
theorem measure_stands_nanos (hv : c.Valid) (ha : c.nanos ≤ 2 ^ 64) (hcount : binary64.Has c.count)
    (hnanos : binary64.Has c.nanos) : c.measure.Stands c.nanos := by
  obtain ⟨r, b, hr, hb, hmeasure⟩ := measure_stands hv ha
  rw [hr.exact hcount] at hb
  rwa [hb.exact hnanos] at hmeasure

/-- What needs no rounding is added up exactly. -/
theorem total_stands (ha : sum cs ≤ 2 ^ 64) (he : Exact cs) :
    (total (binary64.ofNat 0) cs).Stands (sum cs) := by
  induction cs using List.reverseRecOn with
  | nil => exact Number.binary64_zero_stands
  | append_singleton cs c ih =>
    have hprefix := List.prefix_append cs [c]
    have hsum := ih ((sum_front_le hprefix).trans ha)
      ⟨fun d hd => he.measure d (List.mem_append_left _ hd),
        fun front hf => he.sum front (hf.trans hprefix)⟩
    have hmeasure := he.measure c (List.mem_append_right _ List.mem_cons_self)
    have hhas := he.sum _ (List.prefix_refl (cs ++ [c]))
    rw [sum_snoc] at ha hhas ⊢
    obtain ⟨b, hb, hround⟩ := binary64.add_stands Number.binary64_proper hsum hmeasure
      (Number.lt_binary64_overflow (ha.trans (by norm_num)))
    rw [total_append, ← hround.exact hhas]
    exact hb

/-- What may be lost of a component without any rounding. -/
def slack : ℚ :=
  2 ^ 50 * binary64.underflow

theorem slack_le : 0 ≤ slack ∧ slack ≤ 1 / 2 ^ 150 := by
  have hnonneg := binary64.underflow_pos
  have hsmall := Number.binary64_underflow_le
  unfold slack
  exact ⟨by positivity, by linarith⟩

theorem measure_near (hv : c.Valid) (ha : c.nanos ≤ 2 ^ 64) :
    ∃ b, c.measure.Stands b ∧ binary64.Near 2 (slack / 2) c.nanos b := by
  obtain ⟨r, b, hr, hb, hmeasure⟩ := measure_stands hv ha
  have hscale : (c.scale : ℚ) ≤ 2 ^ 47 := by exact_mod_cast (scale_bounds hv).2.le
  have hunderflow := binary64.underflow_pos
  have hproduct :=
    ((BinaryFormat.Near.refl binary64 c.count).rounds le_rfl hr).mul c.scale.cast_nonneg
  have hrest : 0 ≤ (0 + binary64.underflow) * c.scale := by positivity
  have hscaled := mul_le_mul_of_nonneg_left hscale hunderflow.le
  refine ⟨b, hmeasure, (hproduct.rounds hrest hb).mono c.nanos_nonneg (by positivity) le_rfl ?_⟩
  unfold slack
  linarith

/-- What may be lost without any rounding is far less than what is rounded. -/
theorem mul_slack_le (n : Nat) : 4 * (n * slack) ≤ n * binary64.roundoff := by
  have hslack := mul_le_mul_of_nonneg_left slack_le.2 n.cast_nonneg
  have hn : (0 : ℚ) ≤ n := n.cast_nonneg
  rw [Number.binary64_roundoff]
  linarith

/-- Each component adds one rounding. -/
theorem total_near (hcs : ∀ c ∈ cs, c.Valid) (ha : sum cs ≤ 2 ^ 64)
    (hn : cs.length + 2 ≤ Nat.pow 2 51) :
    ∃ b, (total (binary64.ofNat 0) cs).Stands b ∧
      binary64.Near (cs.length + 2) (cs.length * slack) (sum cs) b := by
  induction cs using List.reverseRecOn with
  | nil =>
    exact ⟨0, Number.binary64_zero_stands,
      (BinaryFormat.Near.refl binary64 0).mono le_rfl le_rfl (Nat.zero_le _) (by simp)⟩
  | append_singleton cs c ih =>
    have hmem : c ∈ cs ++ [c] := List.mem_append_right _ List.mem_cons_self
    have hlength : (cs ++ [c]).length = cs.length + 1 := List.length_append
    rw [hlength] at hn ⊢
    obtain ⟨b, hb, hnear⟩ := ih (fun d hd => hcs d (List.mem_append_left _ hd))
      ((sum_front_le (List.prefix_append cs [c])).trans ha) (by omega)
    obtain ⟨m, hm, hmeasure⟩ := measure_near (hcs c hmem) ((nanos_le_sum hmem).trans ha)
    have hslack := slack_le
    have hsum := hnear.add (hmeasure.mono c.nanos_nonneg (by linarith) (Nat.le_add_left 2 _) le_rfl)
    rw [← sum_snoc] at hsum
    have hfew := Number.mul_binary64_roundoff_le (show cs.length + 2 ≤ Nat.pow 2 51 by omega)
    have hrest : 0 ≤ cs.length * slack + slack / 2 ∧ cs.length * slack + slack / 2 ≤ 1 := by
      have hmost := mul_slack_le cs.length
      have hless := Number.mul_binary64_roundoff_le (show cs.length ≤ Nat.pow 2 51 by omega)
      exact ⟨add_nonneg (mul_nonneg cs.length.cast_nonneg hslack.1) (by linarith), by linarith⟩
    have hsmall : b + m ≤ 2 ^ 67 := by
      have hpow := (BinaryFormat.one_add_roundoff_pow_le hfew).trans (by linarith : _ ≤ (2 : ℚ))
      have hscaled := mul_le_mul_of_nonneg_right hpow (add_nonneg (sum_nonneg (cs ++ [c])) hrest.1)
      linarith [hsum.high]
    obtain ⟨s, hs, hround⟩ := binary64.add_stands Number.binary64_proper hb hm
      (Number.lt_binary64_overflow hsmall)
    refine ⟨s, by rw [total_append]; exact hs,
      (hsum.rounds ?_ hround).mono (sum_nonneg _) ?_ (by omega) ?_⟩
    · exact hrest.1
    · linarith [hrest.1, binary64.underflow_pos]
    · have hunderflow : slack = 2 ^ 50 * binary64.underflow := rfl
      push_cast
      linarith [binary64.underflow_pos]

/-- What is added up is off by what is rounded and by what is lost without any rounding. -/
theorem total_error (hcs : ∀ c ∈ cs, c.Valid) (ha : sum cs ≤ 2 ^ 64)
    (hn : cs.length + 2 ≤ Nat.pow 2 51) :
    ∃ b, (total (binary64.ofNat 0) cs).Stands b ∧
      2 ^ 52 * |b - sum cs| ≤ 2 / 3 * ((cs.length + 2) * sum cs) + 1 / 4 * cs.length := by
  obtain ⟨b, hb, hnear⟩ := total_near hcs ha hn
  have hslack : 0 ≤ cs.length * slack := mul_nonneg cs.length.cast_nonneg slack_le.1
  have herror := hnear.error (sum_nonneg cs) hslack (Number.mul_binary64_roundoff_le hn)
  have hmost := mul_slack_le cs.length
  rw [Number.binary64_roundoff] at herror hmost
  push_cast at herror
  exact ⟨b, hb, by linarith⟩

/-! ## Whole nanoseconds -/

/-- The whole nanoseconds that a sum is read as. -/
def read (cs : List Component) : Nat :=
  (total (binary64.ofNat 0) cs).clampToNat IntType.u64.greatest.toNat

theorem read_eq (h : (total (binary64.ofNat 0) cs).Stands a) :
    read cs = min ⌊a⌋₊ (Nat.pow 2 64 - 1) :=
  h.clampToNat_eq _

theorem sum_le (ha : sum cs = n) (hn : n < Nat.pow 2 64) : sum cs ≤ 2 ^ 64 := by
  rw [ha]
  exact_mod_cast hn.le

theorem read_eq_of_exact (ha : sum cs = n) (hn : n < Nat.pow 2 64) (he : Exact cs) :
    read cs = n := by
  rw [read_eq (total_stands (sum_le ha hn) he), ha, Nat.floor_natCast]
  omega

/-- What is rounded on the way and cut off at the end. -/
theorem read_near (hcs : ∀ c ∈ cs, c.Valid) (ha : sum cs = n) (hn : n < Nat.pow 2 64)
    (hlength : cs.length + 2 ≤ Nat.pow 2 51) :
    Nat.pow 2 52 * read cs ≤ Nat.pow 2 52 * n + (cs.length + 2) * n ∧
      Nat.pow 2 52 * n < Nat.pow 2 52 * (read cs + 1) + (cs.length + 2) * n := by
  obtain ⟨b, hb, herror⟩ := total_error hcs (sum_le ha hn) hlength
  have hlength' : (cs.length : ℚ) + 2 ≤ 2 ^ 51 := by exact_mod_cast hlength
  rw [read_eq hb]
  rw [ha] at herror
  rcases Nat.eq_zero_or_pos n with rfl | hpos
  · have hzero : ⌊b⌋₊ = 0 := by
      rw [Nat.cast_zero, sub_zero, mul_zero] at herror
      exact Nat.floor_eq_zero.2 (by linarith [le_abs_self b])
    rw [hzero, Nat.zero_min, Nat.mul_zero, Nat.mul_zero]
    exact ⟨Nat.zero_le _, by decide⟩
  -- a positive sum is so great that what is lost without any rounding does not count
  have hcover : (cs.length : ℚ) * 1 ≤ (cs.length + 2) * n := by
    gcongr
    · linarith
    · exact_mod_cast hpos
  have hboth := abs_sub_le_iff.1 (le_refl |b - n|)
  have hlow : 2 ^ 52 * ⌊b⌋₊ ≤ 2 ^ 52 * n + (cs.length + 2) * n := by
    have hfloor := Nat.floor_le hb.nonneg
    have hcast : (2 : ℚ) ^ 52 * ⌊b⌋₊ ≤ 2 ^ 52 * n + (cs.length + 2) * n := by linarith
    exact_mod_cast hcast
  have hhigh : 2 ^ 52 * n < 2 ^ 52 * (⌊b⌋₊ + 1) + (cs.length + 2) * n := by
    have hfloor := Nat.lt_floor_add_one b
    have hcast : (2 : ℚ) ^ 52 * n < 2 ^ 52 * (⌊b⌋₊ + 1) + (cs.length + 2) * n := by linarith
    exact_mod_cast hcast
  generalize (cs.length + 2) * n = loss at *
  simp only [Nat.pow_eq] at hn ⊢
  omega

/-! ## Sums that need no rounding -/

theorem sum_whole {i : Nat} (h : ∀ c ∈ cs, ∃ k : Nat, c.nanos * 2 ^ i = k) :
    ∃ k : Nat, sum cs * 2 ^ i = k := by
  induction cs with
  | nil => exact ⟨0, by simp [sum]⟩
  | cons c cs ih =>
    obtain ⟨hc, hcs⟩ := List.forall_mem_cons.1 h
    obtain ⟨k, hk⟩ := hc
    obtain ⟨l, hl⟩ := ih hcs
    have hcons : sum (c :: cs) = c.nanos + sum cs := rfl
    exact ⟨k + l, by rw [hcons, add_mul, hk, hl, Nat.cast_add]⟩

/-- Nothing has to be rounded where all numbers are whole multiples of one power of two and their sum
is not too great a multiple of it. -/
theorem exact_of_whole (hcs : ∀ c ∈ cs, c.Valid) {i : Nat} (hi : i ≤ 1074)
    (hwhole : ∀ c ∈ cs, ∃ k : Nat, c.count * 2 ^ i = k) (hsum : sum cs * 2 ^ i ≤ 2 ^ 53) :
    Exact cs := by
  have hbelow : ∀ {b : ℚ}, b ≤ sum cs → b * 2 ^ i ≤ 2 ^ 53 := fun h =>
    (mul_le_mul_of_nonneg_right h (by positivity)).trans hsum
  have hnanos : ∀ c ∈ cs, ∃ k : Nat, c.nanos * 2 ^ i = k := by
    intro c hc
    obtain ⟨k, hk⟩ := hwhole c hc
    exact ⟨k * c.scale, by rw [nanos, mul_right_comm, hk, Nat.cast_mul]⟩
  refine ⟨fun c hc => ?_, fun front hf => ?_⟩
  · have hle := nanos_le_sum hc
    have hfits : c.nanos ≤ 2 ^ 64 := by
      have hone : (1 : ℚ) ≤ 2 ^ i := one_le_pow₀ one_le_two
      have hscale := le_mul_of_one_le_right c.nanos_nonneg hone
      linarith [hbelow hle]
    obtain ⟨k, hk⟩ := hwhole c hc
    obtain ⟨l, hl⟩ := hnanos c hc
    exact measure_stands_nanos (hcs c hc) hfits
      (Number.binary64_has hi hk (hbelow ((count_le_nanos (hcs c hc)).trans hle)))
      (Number.binary64_has hi hl (hbelow hle))
  · obtain ⟨k, hk⟩ := sum_whole fun c hc => hnanos c (hf.subset hc)
    exact Number.binary64_has hi hk (hbelow (sum_front_le hf))

end

end Component

end Duration

/-- A sum is read as what its components are added up to. -/
theorem Cursor.bind_duration_of_isSum {c : Cursor} {t : Text} {cs : List Duration.Component}
    (ht : c.require = .ok t) (hcs : Duration.IsSum (Text.trim t) cs) :
    c.bind .duration = .ok (.duration (Duration.Component.read cs)) := by
  rw [bind_duration_eq ht, Duration.read?_of_isSum hcs]
  rfl

/-- A sum of components that is a whole number of nanoseconds, and not too great a one, is read exactly
where each component is measured exactly and no sum on the way to it has to be rounded. Else what is
read is off by the nanosecond that is cut off and by one part in `2 ^ 52` for each component and two
more, so that at most a nanosecond is missing from a sum that is not too great. -/
theorem Cursor.bind_duration_sum {c : Cursor} {t : Text} {cs : List Duration.Component} {n : Nat}
    (ht : c.require = .ok t) (hcs : Duration.IsSum (Text.trim t) cs)
    (hsum : Duration.Component.sum cs = n) (hn : n < Nat.pow 2 64) :
    ∃ d, c.bind .duration = .ok (.duration d) ∧
      (Duration.Component.Exact cs → d = n) ∧
      (cs.length + 2 ≤ Nat.pow 2 51 →
        Nat.pow 2 52 * d ≤ Nat.pow 2 52 * n + (cs.length + 2) * n ∧
        Nat.pow 2 52 * n < Nat.pow 2 52 * (d + 1) + (cs.length + 2) * n ∧
        ((cs.length + 2) * n < Nat.pow 2 52 → d = n ∨ d + 1 = n)) := by
  refine ⟨_, bind_duration_of_isSum ht hcs, Duration.Component.read_eq_of_exact hsum hn,
    fun hlength => ?_⟩
  obtain ⟨hhigh, hlow⟩ := Duration.Component.read_near hcs.2.1 hsum hn hlength
  refine ⟨hhigh, hlow, fun hsmall => ?_⟩
  simp only [Nat.pow_eq] at hhigh hlow hsmall
  omega

/-- An hour and a number of minutes with a half. -/
theorem Cursor.bind_duration_sum_half :
    (ofTag (Store.empty.put ['k'] "1h30.5m".toList) ⟨['k'], none⟩ []).bind .duration =
      .ok (.duration 5430000000000) := by
  have hk : Key.Unmarked ['k'] := ⟨'k', [], rfl, by decide⟩
  have ht : (ofTag (Store.empty.put ['k'] "1h30.5m".toList) ⟨['k'], none⟩ []).require =
      .ok "1h30.5m".toList := require_of_resolve hk rfl (by cbv) []
  have hhour : (⟨['1'], ['h']⟩ : Duration.Component).count = 1 :=
    (Duration.Component.count_eq (n := 1) (p := 0) (by decide) (by decide)).trans (by norm_num)
  have hminutes : (⟨['3', '0', '.', '5'], ['m']⟩ : Duration.Component).count = 61 / 2 :=
    (Duration.Component.count_eq (n := 305) (p := 1) (by decide) (by decide)).trans (by norm_num)
  have hcs : Duration.IsSum (Text.trim "1h30.5m".toList)
      [⟨['1'], ['h']⟩, ⟨['3', '0', '.', '5'], ['m']⟩] := by decide
  have hsum : Duration.Component.sum [⟨['1'], ['h']⟩, ⟨['3', '0', '.', '5'], ['m']⟩] =
      (5430000000000 : Nat) := by
    simp only [Duration.Component.sum, List.map_cons, List.map_nil, List.sum_cons, List.sum_nil,
      Duration.Component.nanos, hhour, hminutes, Duration.Component.scale, Duration.unit?,
      Option.getD_some]
    norm_num
  obtain ⟨d, hd, hexact, -⟩ := bind_duration_sum ht hcs hsum (by decide)
  have hwhole : ∀ x ∈ [⟨['1'], ['h']⟩, ⟨['3', '0', '.', '5'], ['m']⟩],
      ∃ k : Nat, Duration.Component.count x * 2 ^ 1 = k := by
    rw [List.forall_mem_cons, List.forall_mem_singleton, hhour, hminutes]
    exact ⟨⟨2, by norm_num⟩, ⟨61, by norm_num⟩⟩
  have heq := hexact
    (Duration.Component.exact_of_whole hcs.2.1 (by decide) hwhole (by rw [hsum]; norm_num))
  rw [hd, heq]

/-- A number of seconds that is not one of double precision. -/
theorem Cursor.bind_duration_sum_ne :
    Duration.IsSum (Text.trim "1.001s".toList) [⟨"1.001".toList, ['s']⟩] ∧
      Duration.Component.sum [⟨"1.001".toList, ['s']⟩] = (1001000000 : Nat) ∧
      (ofTag (Store.empty.put ['k'] "1.001s".toList) ⟨['k'], none⟩ []).require =
        .ok "1.001s".toList ∧
      (ofTag (Store.empty.put ['k'] "1.001s".toList) ⟨['k'], none⟩ []).bind .duration =
        .ok (.duration 1000999999) := by
  have hk : Key.Unmarked ['k'] := ⟨'k', [], rfl, by decide⟩
  have ht : (ofTag (Store.empty.put ['k'] "1.001s".toList) ⟨['k'], none⟩ []).require =
      .ok "1.001s".toList := require_of_resolve hk rfl (by cbv) []
  have hcs : Duration.IsSum (Text.trim "1.001s".toList) [⟨"1.001".toList, ['s']⟩] := by decide
  have hread : Duration.Component.read [⟨"1.001".toList, ['s']⟩] = 1000999999 := by decide +kernel
  refine ⟨hcs, ?_, ht, ?_⟩
  · have hcount : (⟨"1.001".toList, ['s']⟩ : Duration.Component).count = 1001 / 1000 :=
      (Duration.Component.count_eq (n := 1001) (p := 3) (by decide) (by decide)).trans (by norm_num)
    simp only [Duration.Component.sum, List.map_cons, List.map_nil, List.sum_cons, List.sum_nil,
      Duration.Component.nanos, hcount, Duration.Component.scale, Duration.unit?, Option.getD_some]
    norm_num
  · rw [bind_duration_of_isSum ht hcs, hread]

end ConfigGraph
