import ConfigGraph.Reference.Resolve

/-!
# The first reference of a text

A text is read up to its first reference (`first?`), and the escapes in front of that are removed
(`unescape`). The first reference stays the first one when something is put behind the text
(`find?_append_of_some`). Where a text has none, that of what is put behind it is the first one
(`find?_append_of_none`), unless a dollar sign at the seam makes an opener or an escape of what
follows.
-/

namespace ConfigGraph.Reference

variable {s t r before rest : Text} {tag : Tag} {i a b depth : Nat}

/-! ## The seam -/

/-- Text without references: an escaped opener loses its escape. -/
def unescape : Text → Text
  | '$' :: '$' :: '{' :: rest => '$' :: '{' :: unescape rest
  | c :: rest => c :: unescape rest
  | [] => []

theorem getLast?_ne_of_suffix {c : Char} (h : t <:+ s) (hs : s.getLast? ≠ some c) :
    t.getLast? ≠ some c := by
  obtain ⟨p, rfl⟩ := h
  intro ht
  exact hs (by rw [List.getLast?_append, ht, Option.some_or])

/-- The brace of an opener stands in the same text as its dollar sign, unless this ends the text. -/
theorem brace_of_append (hs : ('$' :: s).getLast? ≠ some '$') (h : s ++ t = '{' :: r) :
    ∃ r, s = '{' :: r := by
  cases s with
  | nil => exact absurd rfl hs
  | cons c s =>
    obtain ⟨rfl, -⟩ := List.cons.inj h
    exact ⟨s, rfl⟩

/-- The opener behind an escape stands in the same text as the escape. -/
theorem opener_of_append (hs : ('$' :: s).getLast? ≠ some '$') (h : s ++ t = '$' :: '{' :: r) :
    ∃ r, s = '$' :: '{' :: r := by
  cases s with
  | nil => exact absurd rfl hs
  | cons c s =>
    obtain ⟨rfl, hbrace⟩ := List.cons.inj h
    obtain ⟨r, rfl⟩ := brace_of_append (getLast?_ne_of_suffix (List.suffix_cons _ _) hs) hbrace
    exact ⟨r, rfl⟩

theorem unescape_append (hs : s.getLast? ≠ some '$') :
    unescape (s ++ t) = unescape s ++ unescape t := by
  fun_induction unescape s with
  | case1 rest ih =>
    have hrest := getLast?_ne_of_suffix (List.suffix_append ['$', '$', '{'] rest) hs
    show unescape ('$' :: '$' :: '{' :: (rest ++ t)) = _
    rw [unescape, ih hrest]
    rfl
  | case2 c rest hc ih =>
    have hrest := getLast?_ne_of_suffix (List.suffix_cons c rest) hs
    rw [List.cons_append, unescape, ih hrest]
    · rfl
    · rintro r rfl h
      obtain ⟨r, rfl⟩ := opener_of_append hs h
      exact hc r rfl rfl
  | case3 => rfl

/-! ## Positions in a longer text -/

theorem opening?_append_of_none (hs : s.getLast? ≠ some '$') (h : opening? s i = none) :
    opening? (s ++ t) i = opening? t (s.length + i) := by
  fun_induction opening? s i with
  | case1 rest i ih =>
    have hrest := getLast?_ne_of_suffix (List.suffix_append ['$', '$', '{'] rest) hs
    show opening? ('$' :: '$' :: '{' :: (rest ++ t)) i = _
    rw [opening?, ih hrest h]
    congr 1
    simp only [List.length_cons]
    omega
  | case2 => cases h
  | case3 c rest i hescape hopen ih =>
    have hrest := getLast?_ne_of_suffix (List.suffix_cons c rest) hs
    rw [List.cons_append, opening?, ih hrest h]
    · congr 1
      simp only [List.length_cons]
      omega
    · rintro r rfl h
      obtain ⟨r, rfl⟩ := opener_of_append hs h
      exact hescape r rfl rfl
    · rintro r rfl h
      obtain ⟨r, rfl⟩ := brace_of_append hs h
      exact hopen r rfl rfl
  | case4 => rw [List.nil_append, List.length_nil, Nat.zero_add]

theorem opening?_append_of_some (h : opening? s i = some a) : opening? (s ++ t) i = some a := by
  fun_induction opening? s i with
  | case1 rest i ih => exact ih h
  | case2 rest i => exact h
  | case3 c rest i hescape hopen ih =>
    rw [List.cons_append, opening?, ih h]
    · rintro r rfl hr
      rcases rest with _ | ⟨d, _ | ⟨e, rest⟩⟩
      · cases h
      · cases hr
        cases h
      · cases hr
        exact hescape rest rfl rfl
    · rintro r rfl hr
      rcases rest with _ | ⟨d, rest⟩
      · cases h
      · cases hr
        exact hopen rest rfl rfl
  | case4 => cases h

theorem closing?_append_of_some (h : closing? s depth i = some b) :
    closing? (s ++ t) depth i = some b := by
  fun_induction closing? s depth i with
  | case1 rest depth i ih => exact ih h
  | case2 rest i => exact h
  | case3 rest depth i ih => exact ih h
  | case4 c rest depth i hopen hclose ih =>
    rw [List.cons_append, closing?, ih h]
    · rintro r rfl hr
      rcases rest with _ | ⟨d, rest⟩
      · cases h
      · cases hr
        exact hopen rest rfl rfl
    · exact hclose
  | case5 => cases h

/-- Where a text starts changes the positions in it, and nothing else. -/
theorem opening?_add (s : Text) (n i : Nat) :
    opening? s (n + i) = (opening? s i).map (n + ·) := by
  fun_induction opening? s i with
  | case1 rest i ih => rw [opening?, Nat.add_assoc, ih]
  | case2 rest i => rw [opening?, Option.map_some]
  | case3 c rest i hescape hopen ih => rw [opening?, Nat.add_assoc, ih] <;> assumption
  | case4 => rfl

theorem closing?_add (s : Text) (depth n i : Nat) :
    closing? s depth (n + i) = (closing? s depth i).map (n + ·) := by
  fun_induction closing? s depth i with
  | case1 rest depth i ih => rw [closing?, Nat.add_assoc, ih]
  | case2 rest i => rw [closing?, Option.map_some]
  | case3 rest depth i ih => rw [closing?, Nat.add_assoc, ih]
  | case4 c rest depth i hopen hclose ih => rw [closing?, Nat.add_assoc, ih] <;> assumption
  | case5 => rfl

/-! ## The first reference -/

/-- The first reference in a text, with what stands in front of it and what stands behind it. -/
def first? (s : Text) : Except ConfigError (Option (Text × Tag × Text)) :=
  match find? s with
  | .error e => .error e
  | .ok none => .ok none
  | .ok (some (a, b)) =>
    match Tag.parse (slice s a b) with
    | .error e => .error e
    | .ok tag => .ok (some (s.take a, tag, s.drop (b + 1)))

theorem length_of_first? (h : first? s = .ok (some (before, tag, rest))) :
    tag.size < s.length ∧ rest.length < s.length := by
  unfold first? at h
  split at h
  · cases h
  · cases h
  · rename_i a b hspan
    split at h
    · cases h
    · rename_i hparse
      cases h
      have hbounds := find?_bounds hspan
      have hsize := Tag.size_lt_of_parse hparse
      rw [length_slice hbounds.2] at hsize
      rw [List.length_drop]
      omega

theorem find?_eq_none_iff : find? s = .ok none ↔ opening? s 0 = none := by
  unfold find?
  split
  · simp [*]
  · split <;> simp [*]

theorem find?_eq_some_iff : find? s = .ok (some (a, b)) ↔
    opening? s 0 = some a ∧ closing? (s.drop (a + 2)) 0 (a + 2) = some b := by
  simp only [find?]
  cases opening? s 0 with
  | none => simp
  | some a' =>
    cases hb : closing? (s.drop (a' + 2)) 0 (a' + 2) with
    | none =>
      simp only [hb, reduceCtorEq, Option.some.injEq, false_iff, not_and]
      rintro rfl h
      rw [hb] at h
      cases h
    | some b' =>
      simp only [hb, Except.ok.injEq, Option.some.injEq, Prod.mk.injEq]
      refine and_congr_right ?_
      rintro rfl
      rw [hb, Option.some.injEq]

/-- What is put behind a text does not change where its first reference is. -/
theorem find?_append_of_some (h : find? s = .ok (some (a, b))) :
    find? (s ++ t) = .ok (some (a, b)) := by
  obtain ⟨hopen, hclose⟩ := find?_eq_some_iff.1 h
  have hbound := find?_bounds h
  refine find?_eq_some_iff.2 ⟨opening?_append_of_some hopen, ?_⟩
  rw [List.drop_append_of_le_length (by omega)]
  exact closing?_append_of_some hclose

/-- Behind a text without references, the first reference is the one that it was. -/
theorem find?_append_of_none (hs : s.getLast? ≠ some '$') (h : find? s = .ok none) :
    find? (s ++ t) = (find? t).map (Option.map (Prod.map (s.length + ·) (s.length + ·))) := by
  have hopen : opening? (s ++ t) 0 = (opening? t 0).map (s.length + ·) := by
    rw [opening?_append_of_none hs (find?_eq_none_iff.1 h), opening?_add]
  cases ha : opening? t 0 with
  | none =>
    rw [ha] at hopen
    rw [find?_eq_none_iff.2 hopen, find?_eq_none_iff.2 ha]
    rfl
  | some a =>
    rw [ha] at hopen
    have hclose : closing? ((s ++ t).drop (s.length + a + 2)) 0 (s.length + a + 2) =
        (closing? (t.drop (a + 2)) 0 (a + 2)).map (s.length + ·) := by
      rw [Nat.add_assoc, List.drop_length_add_append, closing?_add]
    simp only [find?, hopen, ha, Option.map_some, hclose]
    cases closing? (t.drop (a + 2)) 0 (a + 2) <;> rfl

theorem slice_append_of_lt (h : b < s.length) : slice (s ++ t) a b = slice s a b := by
  rw [slice, slice, List.take_append_of_le_length h]

theorem slice_length_add (s t : Text) (a b : Nat) :
    slice (s ++ t) (s.length + a) (s.length + b) = slice t a b := by
  rw [slice, slice, Nat.add_assoc, List.take_length_add_append, List.drop_length_add_append]

theorem first?_eq_none_iff : first? s = .ok none ↔ find? s = .ok none := by
  unfold first?
  split
  · simp [*]
  · simp [*]
  · split <;> simp [*]

theorem first?_eq_some_iff : first? s = .ok (some (before, tag, rest)) ↔
    ∃ a b, find? s = .ok (some (a, b)) ∧ Tag.parse (slice s a b) = .ok tag ∧
      s.take a = before ∧ s.drop (b + 1) = rest := by
  unfold first?
  split
  · simp [*]
  · simp [*]
  · rename_i a b hspan
    simp only [hspan, Except.ok.injEq, Option.some.injEq, Prod.mk.injEq]
    constructor
    · intro h
      split at h
      · cases h
      · rename_i hparse
        cases h
        exact ⟨a, b, ⟨rfl, rfl⟩, hparse, rfl, rfl⟩
    · rintro ⟨_, _, ⟨rfl, rfl⟩, hparse, rfl, rfl⟩
      rw [hparse]

theorem first?_append_of_some (h : first? s = .ok (some (before, tag, rest))) :
    first? (s ++ t) = .ok (some (before, tag, rest ++ t)) := by
  obtain ⟨a, b, hspan, hparse, rfl, rfl⟩ := first?_eq_some_iff.1 h
  have hbound := find?_bounds hspan
  refine first?_eq_some_iff.2 ⟨a, b, find?_append_of_some hspan, ?_, ?_, ?_⟩
  · rw [slice_append_of_lt hbound.2, hparse]
  · rw [List.take_append_of_le_length (by omega)]
  · rw [List.drop_append_of_le_length (by omega)]

/-- A text that cannot be taken apart stays so when something is put behind it, unless this closes a
reference. -/
theorem first?_append_of_error {e : ConfigError} (h : first? s = .error e)
    (he : e ≠ .unclosedReference) : first? (s ++ t) = .error e := by
  unfold first? at h
  split at h
  · rename_i hspan
    cases h
    unfold find? at hspan
    split at hspan
    · cases hspan
    · split at hspan
      · cases hspan
      · cases hspan
        exact absurd rfl he
  · cases h
  · rename_i a b hspan
    have hslice : slice (s ++ t) a b = slice s a b := slice_append_of_lt (find?_bounds hspan).2
    split at h
    · rename_i hparse
      cases h
      simp only [first?, find?_append_of_some hspan, hslice, hparse]
    · cases h

theorem first?_append_of_none (hs : s.getLast? ≠ some '$') (h : first? s = .ok none) :
    first? (s ++ t) = (first? t).map (Option.map (Prod.map (s ++ ·) id)) := by
  simp only [first?, find?_append_of_none hs (first?_eq_none_iff.1 h)]
  cases find? t with
  | error e => rfl
  | ok span =>
    cases span with
    | none => rfl
    | some span =>
      obtain ⟨a, b⟩ := span
      simp only [Except.map, Option.map_some, Prod.map, slice_length_add]
      cases Tag.parse (slice t a b) with
      | error e => rfl
      | ok tag =>
        simp only [List.take_length_add_append, Nat.add_assoc, List.drop_length_add_append]
        rfl

end ConfigGraph.Reference
