import ConfigGraph.Error

/-!
# Finding references

A reference starts with a dollar sign and an opening brace and ends with the closing brace that
balances it; every such opener inside counts. Outside of references a second dollar sign in front
escapes the opener.
-/

namespace ConfigGraph.Reference

/-- The position of the first opener that is not escaped, where `i` is that of the first
character. -/
def opening? : Text → (i : Nat) → Option Nat
  | '$' :: '$' :: '{' :: rest, i => opening? rest (i + 3)
  | '$' :: '{' :: _, i => some i
  | _ :: rest, i => opening? rest (i + 1)
  | [], _ => none

/-- The position of the brace that closes `depth + 1` open references. -/
def closing? : Text → (depth i : Nat) → Option Nat
  | '$' :: '{' :: rest, depth, i => closing? rest (depth + 1) (i + 2)
  | '}' :: rest, depth, i =>
    match depth with
    | 0 => some i
    | depth + 1 => closing? rest depth (i + 1)
  | _ :: rest, depth, i => closing? rest depth (i + 1)
  | [], _, _ => none

/-- The positions of the opener and of the closing brace of the first reference. -/
def find? (s : Text) : Except ConfigError (Option (Nat × Nat)) :=
  match opening? s 0 with
  | none => .ok none
  | some a =>
    match closing? (s.drop (a + 2)) 0 (a + 2) with
    | some b => .ok (some (a, b))
    | none => .error .unclosedReference

/-- What stands in front of the first escaped opener and what stands behind it, where that comes before
any reference. -/
def escapeFirst? (s : Text) : Except ConfigError (Option (Text × Text)) :=
  match Text.cut? ['$', '$', '{'] s with
  | none => .ok none
  | some (before, rest) =>
    match find? s with
    | .error e => .error e
    | .ok none => .ok (some (before, rest))
    | .ok (some (a, _)) => .ok (if before.length < a then some (before, rest) else none)

/-- The text from the opener to the closing brace. -/
def slice (s : Text) (a b : Nat) : Text :=
  (s.take (b + 1)).drop a

/-- Text with every opener escaped. -/
def escape : Text → Text
  | '$' :: '{' :: rest => '$' :: '$' :: '{' :: escape rest
  | c :: rest => c :: escape rest
  | [] => []

/-! ## Positions -/

theorem opening?_lt {s : Text} {i a : Nat} (h : opening? s i = some a) :
    i ≤ a ∧ a + 2 ≤ i + s.length := by
  fun_induction opening? s i with
  | case1 rest i ih => have := ih h; simp only [List.length_cons]; omega
  | case2 rest i => simp only [Option.some.injEq] at h; simp only [List.length_cons]; omega
  | case3 c rest i _ _ ih => have := ih h; simp only [List.length_cons]; omega
  | case4 => simp at h

theorem closing?_lt {s : Text} {depth i b : Nat} (h : closing? s depth i = some b) :
    i ≤ b ∧ b < i + s.length := by
  fun_induction closing? s depth i with
  | case1 rest depth i ih => have := ih h; simp only [List.length_cons]; omega
  | case2 rest i => simp only [Option.some.injEq] at h; simp only [List.length_cons]; omega
  | case3 rest depth i ih => have := ih h; simp only [List.length_cons]; omega
  | case4 c rest depth i _ _ ih => have := ih h; simp only [List.length_cons]; omega
  | case5 => simp at h

/-- A reference lies inside the text and holds its opener and its closing brace. -/
theorem find?_bounds {s : Text} {a b : Nat} (h : find? s = .ok (some (a, b))) :
    a + 2 ≤ b ∧ b < s.length := by
  unfold find? at h
  split at h
  · simp at h
  · rename_i a' ha
    split at h
    · rename_i b' hb
      simp only [Except.ok.injEq, Option.some.injEq, Prod.mk.injEq] at h
      obtain ⟨rfl, rfl⟩ := h
      have := opening?_lt ha
      have := closing?_lt hb
      simp only [List.length_drop] at this
      omega
    · simp at h

/-- What stands behind an escaped opener is shorter than the text. -/
theorem length_of_escapeFirst? {s before rest : Text}
    (h : escapeFirst? s = .ok (some (before, rest))) : rest.length < s.length := by
  have hcut : Text.cut? ['$', '$', '{'] s = some (before, rest) := by
    unfold escapeFirst? at h
    split at h
    · cases h
    · rename_i hcut
      split at h
      · cases h
      · cases h
        exact hcut
      · simp only [Except.ok.injEq, Option.ite_none_right_eq_some, Option.some.injEq] at h
        rw [hcut, h.2]
  have := Text.length_of_cut? hcut
  simp only [List.length_cons, List.length_nil] at this
  omega

theorem length_slice {s : Text} {a b : Nat} (h : b < s.length) :
    (slice s a b).length = b + 1 - a := by
  simp only [slice, List.length_drop, List.length_take]
  omega

end ConfigGraph.Reference
