import ConfigGraph.Proofs.Number.Decimal
import ConfigGraph.Proofs.Text
import ConfigGraph.Store.Key
import Mathlib.Data.List.Basic

/-!
# Which keys lie below which

The keys at a key and below it (`Key.Covers`) form a tree: two keys above a third one are comparable
(`Key.Covers.total`). So what lies at or below one of two keys that are apart (`Key.Apart`) is apart
from what lies at or below the other (`Key.Apart.mono`), which is why writes under different children
of a key do not disturb each other.
-/

namespace ConfigGraph.Key

/-- `q` continues `k` after a dot or a bracket. -/
def Below (k q : Text) : Prop :=
  ∃ rest, q = k ++ '.' :: rest ∨ q = k ++ '[' :: rest

/-- `q` is `k` or lies below it. -/
def Covers (k q : Text) : Prop :=
  q = k ∨ Below k q

/-- `q` is in the scope of `k`: at it or below it. Every key is in the scope of the root. -/
def Scope (k q : Text) : Prop :=
  k = [] ∨ Covers k q

/-- Neither of two keys covers the other. -/
def Apart (k q : Text) : Prop :=
  ¬ Covers k q ∧ ¬ Covers q k

/-- Whether a character ends a name in a key. -/
def IsMark (c : Char) : Prop :=
  c = '.' ∨ c = '['

theorem below_iff {k q : Text} : Below k q ↔ ∃ c rest, IsMark c ∧ q = k ++ c :: rest := by
  constructor
  · rintro ⟨rest, h | h⟩
    · exact ⟨_, rest, .inl rfl, h⟩
    · exact ⟨_, rest, .inr rfl, h⟩
  · rintro ⟨c, rest, rfl | rfl, h⟩
    · exact ⟨rest, .inl h⟩
    · exact ⟨rest, .inr h⟩

theorem tail?_eq_some_iff {k q tail : Text} :
    tail? k q = some tail ↔ ∃ c rest, IsMark c ∧ tail = c :: rest ∧ q = k ++ tail := by
  unfold tail?
  split
  · rename_i rest h
    rw [List.isPrefixOf?_eq_some_iff_append_eq] at h
    constructor
    · rintro ⟨⟩
      exact ⟨_, _, .inl rfl, rfl, h.symm⟩
    · rintro ⟨c, rest', hc, rfl, hq⟩
      rw [← h] at hq
      rw [List.append_cancel_left hq]
  · rename_i rest h
    rw [List.isPrefixOf?_eq_some_iff_append_eq] at h
    constructor
    · rintro ⟨⟩
      exact ⟨_, _, .inr rfl, rfl, h.symm⟩
    · rintro ⟨c, rest', hc, rfl, hq⟩
      rw [← h] at hq
      rw [List.append_cancel_left hq]
  · rename_i hdot hbracket
    simp only [reduceCtorEq, false_iff]
    rintro ⟨c, rest, rfl | rfl, rfl, hq⟩
    · exact hdot rest (List.isPrefixOf?_eq_some_iff_append_eq.2 hq.symm)
    · exact hbracket rest (List.isPrefixOf?_eq_some_iff_append_eq.2 hq.symm)

@[simp]
theorem isBelow_iff {k q : Text} : isBelow k q = true ↔ Below k q := by
  rw [isBelow, Option.isSome_iff_exists, below_iff]
  simp only [tail?_eq_some_iff]
  constructor
  · rintro ⟨-, c, rest, hc, rfl, hq⟩
    exact ⟨c, rest, hc, hq⟩
  · rintro ⟨c, rest, hc, hq⟩
    exact ⟨_, c, rest, hc, rfl, hq⟩

@[simp]
theorem related_iff {k q : Text} : related k q = true ↔ Below k q ∨ Below q k := by
  simp only [related, Bool.or_eq_true, isBelow_iff]

instance (k q : Text) : Decidable (Below k q) :=
  decidable_of_iff _ isBelow_iff

instance (k q : Text) : Decidable (Covers k q) :=
  inferInstanceAs (Decidable (q = k ∨ Below k q))

instance (k q : Text) : Decidable (Scope k q) :=
  inferInstanceAs (Decidable (k = [] ∨ Covers k q))

instance (k q : Text) : Decidable (Apart k q) :=
  inferInstanceAs (Decidable (¬ Covers k q ∧ ¬ Covers q k))

theorem Below.length_lt {k q : Text} (h : Below k q) : k.length < q.length := by
  obtain ⟨c, rest, -, rfl⟩ := below_iff.1 h
  simp only [List.length_append, List.length_cons]; omega

theorem not_below_self (k : Text) : ¬ Below k k :=
  fun h => Nat.lt_irrefl _ h.length_lt

theorem Below.trans {a b c : Text} (h₁ : Below a b) (h₂ : Below b c) : Below a c := by
  obtain ⟨x, r, hx, rfl⟩ := below_iff.1 h₁
  obtain ⟨y, t, -, rfl⟩ := below_iff.1 h₂
  exact below_iff.2 ⟨x, r ++ y :: t, hx, by simp only [List.append_assoc, List.cons_append]⟩

theorem Covers.refl (k : Text) : Covers k k := .inl rfl

theorem Covers.trans {a b c : Text} (h₁ : Covers a b) (h₂ : Covers b c) : Covers a c := by
  rcases h₁ with rfl | h₁
  · exact h₂
  · rcases h₂ with rfl | h₂
    · exact .inr h₁
    · exact .inr (h₁.trans h₂)

theorem Covers.exists_append {k q : Text} (h : Covers k q) :
    ∃ rest, q = k ++ rest ∧ ∀ c ∈ rest.head?, IsMark c := by
  rcases h with rfl | h
  · exact ⟨[], by simp⟩
  · obtain ⟨c, rest, hc, rfl⟩ := below_iff.1 h
    exact ⟨c :: rest, rfl, by simpa using hc⟩

theorem Covers.ne_nil {k q : Text} (hk : k ≠ []) (h : Covers k q) : q ≠ [] := by
  obtain ⟨rest, rfl, -⟩ := h.exists_append
  exact List.append_ne_nil_of_left_ne_nil hk rest

theorem Covers.length_le {k q : Text} (h : Covers k q) : k.length ≤ q.length := by
  rcases h with rfl | h
  · exact Nat.le_refl _
  · exact Nat.le_of_lt h.length_lt

theorem covers_append {k rest : Text} (h : ∀ c ∈ rest.head?, IsMark c) : Covers k (k ++ rest) := by
  cases rest with
  | nil => exact .inl (List.append_nil k)
  | cons c rest => exact .inr (below_iff.2 ⟨c, rest, h c rfl, rfl⟩)

/-- Two keys that cover the same one are comparable. -/
theorem Covers.total {a b q : Text} (ha : Covers a q) (hb : Covers b q) :
    Covers a b ∨ Covers b a := by
  obtain ⟨s, rfl, hs⟩ := ha.exists_append
  obtain ⟨t, he, ht⟩ := hb.exists_append
  rcases List.append_eq_append_iff.1 he with ⟨m, rfl, rfl⟩ | ⟨m, rfl, rfl⟩
  · refine .inl (covers_append fun c hc => hs c ?_)
    cases m with
    | nil => simp at hc
    | cons d m => exact hc
  · refine .inr (covers_append fun c hc => ht c ?_)
    cases m with
    | nil => simp at hc
    | cons d m => exact hc

theorem Apart.symm {a b : Text} (h : Apart a b) : Apart b a := ⟨h.2, h.1⟩

/-- What is covered by keys that are apart is apart. -/
theorem Apart.mono {a b x y : Text} (h : Apart a b) (hx : Covers a x) (hy : Covers b y) :
    Apart x y := by
  constructor
  · intro hxy
    exact ((hx.trans hxy).total hy).elim h.1 h.2
  · intro hyx
    exact (hx.total (hy.trans hyx)).elim h.1 h.2

theorem Apart.unrelated {a b : Text} (h : Apart a b) : ¬ (b = a ∨ Below a b ∨ Below b a) := by
  rintro (rfl | hb | hb)
  · exact h.1 (.refl _)
  · exact h.1 (.inr hb)
  · exact h.2 (.inr hb)

/-- No key is covered by two that are apart. -/
theorem Apart.not_covers {a b q : Text} (h : Apart a b) (ha : Covers a q) : ¬ Covers b q :=
  fun hb => (h.mono ha hb).1 (.refl q)

theorem Scope.covers {k q : Text} (hk : k ≠ []) (h : Scope k q) : Covers k q :=
  h.resolve_left hk

theorem Scope.trans {a b c : Text} (hab : Scope a b) (hbc : Scope b c) : Scope a c := by
  by_cases ha : a = []
  · exact .inl ha
  · have hb : b ≠ [] := (hab.covers ha).ne_nil ha
    exact .inr ((hab.covers ha).trans (hbc.covers hb))

/-- What is above a key in the scope of another one is in that scope, or above that one. -/
theorem Scope.of_below {a b q : Text} (hab : Scope a b) (hq : Below q b) : Scope a q ∨ Below q a := by
  by_cases ha : a = []
  · exact .inl (.inl ha)
  · rcases (hab.covers ha).total (.inr hq) with h | rfl | h
    · exact .inl (.inr h)
    · exact .inl (.inr (.refl _))
    · exact .inr h

/-! ## Children of a key -/

/-- A name that can stand in a key between two marks. -/
def IsName (n : Text) : Prop :=
  n ≠ [] ∧ '.' ∉ n ∧ '[' ∉ n

theorem IsName.not_mark {n : Text} (h : IsName n) {c : Char} (hc : c ∈ n) : ¬ IsMark c := by
  rintro (rfl | rfl)
  · exact h.2.1 hc
  · exact h.2.2 hc

theorem IsName.eq_of_covers {m n : Text} (hn : IsName n) (h : Covers m n) : n = m := by
  rcases h with h | h
  · exact h
  · obtain ⟨c, rest, hc, rfl⟩ := below_iff.1 h
    exact absurd hc (hn.not_mark (by simp))

theorem join_eq {k n : Text} (hk : k ≠ []) (hn : n ≠ []) : join k n = k ++ '.' :: n := by
  cases k with
  | nil => exact absurd rfl hk
  | cons c k => cases n with
    | nil => exact absurd rfl hn
    | cons d n => rfl

theorem join_nil (k : Text) : join k [] = k := by
  cases k <;> rfl

theorem join_ne_nil {n : Text} (k : Text) (hn : n ≠ []) : join k n ≠ [] := by
  by_cases hk : k = []
  · subst hk; exact hn
  · rw [join_eq hk hn]; simp

theorem element_ne_nil (k : Text) (i : Nat) : element k i ≠ [] := by
  simp [element]

theorem covers_append_iff {p k q : Text} : Covers (p ++ k) (p ++ q) ↔ Covers k q := by
  simp only [Covers, below_iff, List.append_assoc, List.append_cancel_left_eq]

/-- Entries of different names are apart. -/
theorem apart_join {m n : Text} (k : Text) (hm : IsName m) (hn : IsName n) (h : m ≠ n) :
    Apart (join k m) (join k n) := by
  have hmn : ∀ {m n : Text}, IsName m → IsName n → m ≠ n → ¬ Covers (join k m) (join k n) := by
    intro m n hm hn h hc
    by_cases hk : k = []
    · subst hk
      exact h (hn.eq_of_covers hc).symm
    · rw [join_eq hk hm.1, join_eq hk hn.1, covers_append_iff] at hc
      rw [show '.' :: m = ['.'] ++ m from rfl, show '.' :: n = ['.'] ++ n from rfl,
        covers_append_iff] at hc
      exact h (hn.eq_of_covers hc).symm
  exact ⟨hmn hm hn h, hmn hn hm h.symm⟩

theorem below_join {k n : Text} (hk : k ≠ []) (hn : n ≠ []) : Below k (join k n) :=
  ⟨n, .inl (join_eq hk hn)⟩

/-- A key that an entry covers is not the key of the map. -/
theorem not_covers_join {n : Text} (k : Text) (hn : n ≠ []) : ¬ Covers (join k n) k := by
  intro h
  by_cases hk : k = []
  · exact h.ne_nil (join_ne_nil k hn) hk
  · exact Nat.not_lt.2 h.length_le (below_join hk hn).length_lt

/-- What an entry covers is in the scope of the map. -/
theorem scope_of_join {k n q : Text} (hn : n ≠ []) (h : Covers (join k n) q) : Scope k q := by
  by_cases hk : k = []
  · exact .inl hk
  · exact .inr (Covers.trans (.inr (below_join hk hn)) h)

theorem scope_join (k n : Text) : Scope k (join k n) := by
  by_cases hn : n = []
  · rw [hn, join_nil]
    exact .inr (.refl k)
  · exact scope_of_join hn (.refl _)

theorem below_element (k : Text) (i : Nat) : Below k (element k i) :=
  ⟨Nat.toDigits 10 i ++ [']'], .inr (by simp only [element, List.append_assoc, List.cons_append])⟩

/-- A key that an element covers is not the key of the sequence. -/
theorem not_covers_element (k : Text) (i : Nat) : ¬ Covers (element k i) k :=
  fun h => Nat.not_lt.2 h.length_le (below_element k i).length_lt

/-- What an element covers is in the scope of the sequence. -/
theorem scope_of_element {k q : Text} {i : Nat} (h : Covers (element k i) q) : Scope k q :=
  .inr (Covers.trans (.inr (below_element k i)) h)

theorem scope_element (k : Text) (i : Nat) : Scope k (element k i) :=
  scope_of_element (.refl _)

/-- The number of an element is read off its key. -/
theorem element_append_inj {i j : Nat} {k s t : Text} (h : element k i ++ s = element k j ++ t) :
    i = j ∧ s = t := by
  have hd : ∀ i : Nat, ']' ∉ Number.digits i := fun i => Number.not_mem_digits (by decide)
  simp only [element, List.append_assoc, List.cons_append, List.append_cancel_left_eq,
    List.cons.injEq, true_and, List.nil_append] at h
  obtain ⟨hij, hst⟩ := Text.append_cons_inj (hd i) (hd j) h
  exact ⟨Number.digits_inj hij, hst⟩

/-- Elements of different numbers are apart. -/
theorem apart_element {i j : Nat} (k : Text) (h : i ≠ j) : Apart (element k i) (element k j) := by
  have hij : ∀ {i j : Nat}, i ≠ j → ¬ Covers (element k i) (element k j) := by
    intro i j h hc
    obtain ⟨rest, he, -⟩ := hc.exists_append
    rw [← List.append_nil (element k j)] at he
    exact h (element_append_inj he).1.symm
  exact ⟨hij h, hij h.symm⟩

end ConfigGraph.Key
