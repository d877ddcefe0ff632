/-!
# Text

Keys, values, tags and paths are lists of code points, so that a text is taken apart by the
functions on lists and the lemmas about them. Texts are ordered by code point.
-/

namespace ConfigGraph

/-- Text as the code points it consists of. -/
abbrev Text := List Char

namespace Text

/-! ## Order -/

/-- Lexicographic order by code point. -/
def before : Text → Text → Bool
  | _, [] => false
  | [], _ :: _ => true
  | a :: s, b :: t => a.toNat < b.toNat || (a == b && before s t)

theorem before_irrefl (s : Text) : before s s = false := by
  induction s with
  | nil => rfl
  | cons a s ih => simp [before, ih]

theorem before_trans {s t u : Text} (h₁ : before s t = true) (h₂ : before t u = true) :
    before s u = true := by
  induction s generalizing t u with
  | nil =>
    cases u with
    | nil => cases t <;> simp [before] at h₂
    | cons c u => rfl
  | cons a s ih =>
    cases t with
    | nil => simp [before] at h₁
    | cons b t =>
      cases u with
      | nil => simp [before] at h₂
      | cons c u =>
        simp only [before, Bool.or_eq_true, decide_eq_true_eq, Bool.and_eq_true,
          beq_iff_eq] at h₁ h₂ ⊢
        rcases h₁ with h₁ | ⟨rfl, h₁⟩
        · rcases h₂ with h₂ | ⟨rfl, -⟩
          · exact .inl (Nat.lt_trans h₁ h₂)
          · exact .inl h₁
        · rcases h₂ with h₂ | ⟨rfl, h₂⟩
          · exact .inl h₂
          · exact .inr ⟨rfl, ih h₁ h₂⟩

/-- Of two different texts one comes before the other. -/
theorem before_total {s t : Text} (h : s ≠ t) : before s t = true ∨ before t s = true := by
  induction s generalizing t with
  | nil => cases t with
    | nil => exact absurd rfl h
    | cons b t => exact .inl rfl
  | cons a s ih => cases t with
    | nil => exact .inr rfl
    | cons b t =>
      simp only [before, Bool.or_eq_true, decide_eq_true_eq, Bool.and_eq_true, beq_iff_eq]
      rcases Nat.lt_trichotomy a.toNat b.toNat with hlt | heq | hgt
      · exact .inl (.inl hlt)
      · have hab : a = b := Char.ext (UInt32.toNat_inj.1 heq)
        subst hab
        have hst : s ≠ t := fun e => h (by rw [e])
        rcases ih hst with h | h
        · exact .inl (.inr ⟨rfl, h⟩)
        · exact .inr (.inr ⟨rfl, h⟩)
      · exact .inr (.inl hgt)

/-! ## Pieces -/

/-- The text up to the first occurrence of a character, and what follows that occurrence. -/
def cutAt? (sep : Char) (s : Text) : Option (Text × Text) :=
  match s.dropWhile (· != sep) with
  | [] => none
  | _ :: rest => some (s.takeWhile (· != sep), rest)

theorem length_of_cutAt? {sep : Char} {s head rest : Text} (h : cutAt? sep s = some (head, rest)) :
    rest.length < s.length := by
  unfold cutAt? at h
  split at h
  · simp at h
  · rename_i c r hd
    simp only [Option.some.injEq, Prod.mk.injEq] at h
    obtain ⟨-, rfl⟩ := h
    have := (List.dropWhile_sublist (fun x => x != sep) (l := s)).length_le
    rw [hd] at this
    exact this

/-- The text up to the first occurrence of `sep`, and what follows that occurrence. -/
def cut? (sep : Text) : Text → Option (Text × Text)
  | [] => if sep.isEmpty then some ([], []) else none
  | c :: rest =>
    if sep.isPrefixOf (c :: rest) then some ([], (c :: rest).drop sep.length)
    else (cut? sep rest).map fun (head, after) => (c :: head, after)

/-- A text that is cut is what it is cut into, with the separator between. -/
theorem eq_append_of_cut? {sep s head after : Text} (h : cut? sep s = some (head, after)) :
    s = head ++ sep ++ after := by
  induction s generalizing head with
  | nil =>
    rw [cut?] at h
    split at h
    · rename_i hsep
      cases h
      rw [List.isEmpty_iff.1 hsep]
      rfl
    · cases h
  | cons c rest ih =>
    rw [cut?] at h
    split at h
    · rename_i hsep
      cases h
      exact (List.prefix_iff_eq_append.1 (List.isPrefixOf_iff_prefix.1 hsep)).symm
    · obtain ⟨⟨front, back⟩, hcut, hpair⟩ := Option.map_eq_some_iff.1 h
      cases hpair
      rw [ih hcut]
      rfl

theorem length_of_cut? {sep s head after : Text} (h : cut? sep s = some (head, after)) :
    s.length = head.length + sep.length + after.length := by
  rw [eq_append_of_cut? h, List.length_append, List.length_append]

/-- The pieces between the occurrences of a separator, found from the left without overlap. -/
def splitOn (sep : Text) (s : Text) : List Text :=
  if hs : sep = [] then [s]
  else match h : cut? sep s with
    | none => [s]
    | some (head, rest) =>
      have : rest.length < s.length := by
        have := length_of_cut? h
        have := List.length_pos_iff.2 hs
        omega
      head :: splitOn sep rest
termination_by s.length

/-- The text with every occurrence of `old`, found from the left without overlap, replaced. -/
def replace (old new s : Text) : Text :=
  new.intercalate (splitOn old s)

/-- Texts joined with a separator between them. -/
def join (sep : Text) (pieces : List Text) : Text :=
  sep.intercalate pieces

/-! ## ASCII -/

def isDigit (c : Char) : Bool := 48 ≤ c.toNat && c.toNat ≤ 57

/-- The value of a decimal digit. -/
def digit (c : Char) : Nat := c.toNat - 48

/-- The value of a digit of a base up to sixteen. -/
def digit? (base : Nat) (c : Char) : Option Nat :=
  let v :=
    if isDigit c then digit c
    else if 97 ≤ c.toNat && c.toNat ≤ 102 then c.toNat - 87
    else if 65 ≤ c.toNat && c.toNat ≤ 70 then c.toNat - 55
    else base
  if v < base then some v else none

/-- The text with the capital letters of ASCII lowered. -/
def asciiLower (s : Text) : Text :=
  s.map fun c => if 65 ≤ c.toNat && c.toNat ≤ 90 then Char.ofNat (c.toNat + 32) else c

end Text

end ConfigGraph
