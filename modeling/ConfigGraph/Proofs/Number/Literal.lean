import ConfigGraph.Number.Literal
import ConfigGraph.Proofs.Text
import Mathlib.Data.List.TakeWhile

/-!
# Decimal numbers without signs and exponents

A text of digits and points is read as a number exactly if there is a digit and at most one point in it
(`BinaryFormat.read?_of_isDecimal`, `BinaryFormat.read?_eq_none`). The number is that of all its digits,
divided by ten for each digit behind the point.
-/

namespace ConfigGraph.Number

open ConfigGraph.Text (isDigit asciiLower)

/-- Digits, one at least, and a point among them, one at most. -/
structure IsDecimal (s : Text) : Prop where
  chars : ∀ c ∈ s, isDigit c = true ∨ c = '.'
  digit : ∃ c ∈ s, isDigit c = true
  point : s.count '.' ≤ 1

/-- Whether a text is a decimal number can be computed. -/
instance (s : Text) : Decidable (IsDecimal s) :=
  decidable_of_iff ((s.all fun c => isDigit c || c == '.') = true ∧ s.any isDigit = true ∧
      s.count '.' ≤ 1)
    ⟨fun h => ⟨by simpa using h.1, by simpa using h.2.1, h.2.2⟩,
      fun h => ⟨by simpa using h.chars, by simpa using h.digit, h.point⟩⟩

/-- The number of digits behind the point. -/
def places (s : Text) : Nat :=
  (s.dropWhile (· != '.')).length - 1

section

variable {s whole fraction r : Text}

theorem ne_of_isDigit {c d : Char} (hc : isDigit c = true) (hd : isDigit d = false) : c ≠ d := by
  rintro rfl
  rw [hc] at hd
  cases hd

theorem not_mem_of_isDigit (hs : ∀ c ∈ s, isDigit c = true) {d : Char} (hd : isDigit d = false) :
    d ∉ s :=
  fun hm => ne_of_isDigit (hs d hm) hd rfl

/-- A text of digits and points up to its second point. -/
theorem exists_parts (hs : ∀ c ∈ s, isDigit c = true ∨ c = '.') :
    ∃ whole, (∀ c ∈ whole, isDigit c = true) ∧ (s = whole ∨
      ∃ fraction, (∀ c ∈ fraction, isDigit c = true) ∧
        (s = whole ++ '.' :: fraction ∨ ∃ tail, s = whole ++ '.' :: (fraction ++ '.' :: tail))) := by
  -- a run of digits ends with the text or at a point
  have hrun : ∀ t : Text, (∀ c ∈ t, isDigit c = true ∨ c = '.') →
      ∃ run, (∀ c ∈ run, isDigit c = true) ∧ (t = run ∨ ∃ tail, t = run ++ '.' :: tail) := by
    intro t ht
    refine ⟨t.takeWhile isDigit, fun c hc => List.mem_takeWhile_imp hc, ?_⟩
    have happ := List.takeWhile_append_dropWhile (p := isDigit) (l := t)
    cases hd : t.dropWhile isDigit with
    | nil =>
      rw [hd, List.append_nil] at happ
      exact .inl happ.symm
    | cons c tail =>
      have hc : isDigit c = false := by
        have := List.head?_dropWhile_not isDigit t
        rwa [hd] at this
      have hmem : c ∈ t := (List.dropWhile_sublist isDigit).subset (hd ▸ List.mem_cons_self)
      have hpoint : c = '.' := (ht c hmem).resolve_left (by rw [hc]; decide)
      rw [hd, hpoint] at happ
      exact .inr ⟨tail, happ.symm⟩
  obtain ⟨whole, hwhole, hs' | ⟨tail, hs'⟩⟩ := hrun s hs
  · exact ⟨whole, hwhole, .inl hs'⟩
  · have htail : ∀ c ∈ tail, isDigit c = true ∨ c = '.' := fun c hc =>
      hs c (by rw [hs']; exact List.mem_append_right _ (List.mem_cons_of_mem _ hc))
    obtain ⟨fraction, hfraction, ht | ⟨tail', ht⟩⟩ := hrun tail htail
    · exact ⟨whole, hwhole, .inr ⟨fraction, hfraction, .inl (by rw [hs', ht])⟩⟩
    · exact ⟨whole, hwhole, .inr ⟨fraction, hfraction, .inr ⟨tail', by rw [hs', ht]⟩⟩⟩

/-! ## Reading -/

theorem readDecimal?_whole (hw : ∀ c ∈ whole, isDigit c = true) :
    readDecimal? whole = if whole = [] then none else some ⟨ofDigits whole, 0⟩ := by
  have hspan := takeWhile_append_eq (r := []) hw (by simp)
  rw [List.append_nil] at hspan
  simp only [readDecimal?, hspan.1, hspan.2, List.isEmpty_iff, List.isEmpty_nil, Bool.and_true,
    readExponent?, Option.map_some, List.append_nil]
  rfl

theorem readDecimal?_point (hw : ∀ c ∈ whole, isDigit c = true)
    (hf : ∀ c ∈ fraction, isDigit c = true) (hr : ∀ c, r.head? = some c → isDigit c = false) :
    readDecimal? (whole ++ '.' :: (fraction ++ r)) =
      if whole ++ fraction = [] then none else (readExponent? r).map fun e =>
        ⟨ofDigits (whole ++ fraction), e - fraction.length⟩ := by
  have hspan := takeWhile_append_eq (r := '.' :: (fraction ++ r)) hw
    (by simp only [List.head?_cons, Option.some.injEq]; rintro c rfl; rfl)
  have hspan' := takeWhile_append_eq hf hr
  simp only [readDecimal?, hspan.1, hspan.2, hspan'.1, hspan'.2, List.append_eq_nil_iff,
    Bool.and_eq_true, List.isEmpty_iff]

theorem isDecimal_whole (hw : ∀ c ∈ whole, isDigit c = true) (hne : whole ≠ []) :
    IsDecimal whole where
  chars c hc := .inl (hw c hc)
  digit := ⟨_, List.head_mem hne, hw _ (List.head_mem hne)⟩
  point := by
    rw [List.count_eq_zero.2 (not_mem_of_isDigit hw rfl)]
    exact Nat.zero_le 1

theorem isDecimal_point (hw : ∀ c ∈ whole, isDigit c = true)
    (hf : ∀ c ∈ fraction, isDigit c = true) (hne : whole ++ fraction ≠ []) :
    IsDecimal (whole ++ '.' :: fraction) where
  chars c hc := by
    rcases List.mem_append.1 hc with hc | hc
    · exact .inl (hw c hc)
    · exact (List.mem_cons.1 hc).symm.imp_left (hf c)
  digit := by
    have hmem := List.head_mem hne
    rcases List.mem_append.1 hmem with hc | hc
    · exact ⟨_, List.mem_append_left _ hc, hw _ hc⟩
    · exact ⟨_, List.mem_append_right _ (List.mem_cons_of_mem _ hc), hf _ hc⟩
  point := by
    rw [List.count_append, List.count_cons_self, List.count_eq_zero.2 (not_mem_of_isDigit hw rfl),
      List.count_eq_zero.2 (not_mem_of_isDigit hf rfl)]

theorem IsDecimal.readDecimal?_eq (h : IsDecimal s) :
    readDecimal? s = some ⟨ofDigits (s.filter isDigit), -(places s : Int)⟩ := by
  have hfilter : ∀ t : Text, (∀ c ∈ t, isDigit c = true) → t.filter isDigit = t :=
    fun t ht => List.filter_eq_self.2 ht
  have hplain : ∀ t : Text, (∀ c ∈ t, isDigit c = true) → ∀ c ∈ t, (c != '.') = true :=
    fun t ht c hc => bne_iff_ne.2 (ne_of_isDigit (ht c hc) rfl)
  obtain ⟨d, hd, hdigit⟩ := h.digit
  obtain ⟨whole, hw, rfl | ⟨fraction, hf, rfl | ⟨tail, rfl⟩⟩⟩ := exists_parts h.chars
  · have hplaces : places s = 0 := by
      rw [places, List.dropWhile_eq_nil_iff.2 (hplain s hw)]
      rfl
    rw [readDecimal?_whole hw, if_neg (List.ne_nil_of_mem hd), hfilter s hw, hplaces]
    rfl
  · have hplaces : places (whole ++ '.' :: fraction) = fraction.length := by
      rw [places, List.dropWhile_append_of_pos (hplain whole hw)]
      rfl
    have hdigits : (whole ++ '.' :: fraction).filter isDigit = whole ++ fraction := by
      rw [List.filter_append, hfilter whole hw, List.filter_cons_of_neg (by decide),
        hfilter fraction hf]
    have hne : whole ++ fraction ≠ [] := hdigits ▸ List.ne_nil_of_mem (List.mem_filter.2 ⟨hd, hdigit⟩)
    have hread := readDecimal?_point (r := []) hw hf (by simp)
    rw [List.append_nil] at hread
    rw [hread, if_neg hne, hplaces, hdigits, readExponent?, Option.map_some, Int.zero_sub]
  · have hpoint := h.point
    rw [List.count_append, List.count_cons_self, List.count_append, List.count_cons_self] at hpoint
    omega

theorem readDecimal?_eq_none (hs : ∀ c ∈ s, isDigit c = true ∨ c = '.') (h : ¬ IsDecimal s) :
    readDecimal? s = none := by
  obtain ⟨whole, hw, rfl | ⟨fraction, hf, rfl | ⟨tail, rfl⟩⟩⟩ := exists_parts hs
  · rw [readDecimal?_whole hw, if_pos]
    by_contra hne
    exact h (isDecimal_whole hw hne)
  · have hread := readDecimal?_point (r := []) hw hf (by simp)
    rw [List.append_nil] at hread
    rw [hread, if_pos]
    by_contra hne
    exact h (isDecimal_point hw hf hne)
  · have hexponent : readExponent? ('.' :: tail) = none := by simp [readExponent?]
    rw [readDecimal?_point hw hf (by simp only [List.head?_cons, Option.some.injEq]; rintro c rfl; rfl),
      hexponent, Option.map_none, ite_self]

/-- Nothing of digits and points is read as a word or with a sign. -/
theorem BinaryFormat.read?_eq (f : BinaryFormat) (hs : ∀ c ∈ s, isDigit c = true ∨ c = '.') :
    f.read? s = (readDecimal? s).map fun d => f.ofDecimal false d.value d.exponent := by
  have hne : ∀ {d}, isDigit d = false → d ≠ '.' → ∀ tail, s ≠ d :: tail := by
    rintro d hd hpoint tail rfl
    rcases hs d List.mem_cons_self with h | h
    · rw [hd] at h
      cases h
    · exact hpoint h
  have hlower : asciiLower s = s := by
    refine (List.map_congr_left fun c hc => ?_).trans (List.map_id s)
    have hrange : ¬ 65 ≤ c.toNat := by
      rcases hs c hc with h | rfl
      · simp only [isDigit, Bool.and_eq_true, decide_eq_true_eq] at h
        omega
      · decide
    simp [hrange]
  have hnan := hne (d := 'n') rfl (by decide) ['a', 'n']
  have hinf := hne (d := 'i') rfl (by decide) ['n', 'f']
  have hinfinity := hne (d := 'i') rfl (by decide) ['n', 'f', 'i', 'n', 'i', 't', 'y']
  rw [read?]
  · simp only [hlower, hnan, hinf, hinfinity, if_false, decide_false, Bool.or_self, Bool.false_eq_true]
  · exact hne rfl (by decide)
  · exact hne rfl (by decide)

theorem BinaryFormat.read?_of_isDecimal (f : BinaryFormat) (h : IsDecimal s) :
    f.read? s = some (f.ofDecimal false (ofDigits (s.filter isDigit)) (-(places s : Int))) := by
  rw [f.read?_eq h.chars, h.readDecimal?_eq, Option.map_some]

theorem BinaryFormat.read?_eq_none (f : BinaryFormat)
    (hs : ∀ c ∈ s, isDigit c = true ∨ c = '.') (h : ¬ IsDecimal s) : f.read? s = none := by
  rw [f.read?_eq hs, readDecimal?_eq_none hs h, Option.map_none]

end

end ConfigGraph.Number
