import ConfigGraph.Proofs.Store.Below
import ConfigGraph.Store.Read

/-!
# Paths and keys

The key at the end of a path (`Path.key`) lies below the one the path starts at, and what stands behind
that one in the key is the path as a text (`below?_key`), as long as its names can stand in keys. Reading
that text gives a path that spells the same (`spell_split`), and the path itself (`split_text`) when its
numbers are below the limit.
-/

namespace ConfigGraph.Path

open Number (IntType digits)

/-- The key at the end of a path that starts at a key. -/
def key (k : Text) : List Segment → Text
  | [] => k
  | .name n :: p => key (Key.join k n) p
  | .index i :: p => key (Key.element k i) p

/-- What a path adds to a key that is not the root. -/
def suffix : List Segment → Text
  | [] => []
  | .name n :: p => '.' :: n ++ suffix p
  | .index i :: p => '[' :: digits i ++ ']' :: suffix p

/-- A path as a text of its own: it has no dot in front. -/
def text : List Segment → Text
  | .name n :: p => n ++ suffix p
  | p => suffix p

/-- A name can stand in a key. -/
def Plain : Segment → Prop
  | .name n => Key.IsName n
  | .index _ => True

/-- A name can stand in a key, and a number is below the limit and no larger than a machine word. -/
def Readable (limit : Nat) : Segment → Prop
  | .name n => Key.IsName n
  | .index i => i < limit ∧ IntType.usize.holds i = true

theorem Readable.plain {limit : Nat} {s : Segment} (h : Readable limit s) : Plain s := by
  cases s with
  | name n => exact h
  | index i => trivial

theorem covers_key {k : Text} (hk : k ≠ []) (p : List Segment) : Key.Covers k (key k p) := by
  induction p generalizing k with
  | nil => exact .refl k
  | cons s p ih =>
    cases s with
    | name n =>
      by_cases hn : n = []
      · rw [hn, key, Key.join_nil]
        exact ih hk
      · exact Key.Covers.trans (.inr (Key.below_join hk hn)) (ih (Key.join_ne_nil k hn))
    | index i => exact Key.Covers.trans (.inr (Key.below_element k i)) (ih (Key.element_ne_nil k i))

theorem scope_key (k : Text) (p : List Segment) : Key.Scope k (key k p) := by
  by_cases hk : k = []
  · exact .inl hk
  · exact .inr (covers_key hk p)

section

variable {p : List Segment} (hp : ∀ s ∈ p, Plain s)

include hp

theorem key_eq {k : Text} (hk : k ≠ []) : key k p = k ++ suffix p := by
  induction p generalizing k with
  | nil => exact (List.append_nil k).symm
  | cons s p ih =>
    have ih := fun {k} => ih (fun s hs => hp s (List.mem_cons_of_mem _ hs)) (k := k)
    cases s with
    | name n =>
      have hn : Key.IsName n := hp _ List.mem_cons_self
      rw [key, ih (Key.join_ne_nil k hn.1), Key.join_eq hk hn.1]
      simp only [suffix, List.append_assoc, List.cons_append]
    | index i =>
      rw [key, ih (Key.element_ne_nil k i), Key.element]
      simp only [suffix, List.append_assoc, List.cons_append, List.nil_append, digits]

theorem key_root (hne : p ≠ []) : key [] p = text p := by
  cases p with
  | nil => exact absurd rfl hne
  | cons s p =>
    have hp' : ∀ s ∈ p, Plain s := fun s hs => hp s (List.mem_cons_of_mem _ hs)
    cases s with
    | name n =>
      have hn : Key.IsName n := hp _ List.mem_cons_self
      exact key_eq hp' hn.1
    | index i =>
      rw [key, key_eq hp' (Key.element_ne_nil [] i)]
      simp only [Key.element, text, suffix, List.nil_append, List.append_assoc, List.cons_append,
        digits]

/-- What stands behind a key in a key below it. -/
theorem below?_key (k : Text) (hne : p ≠ []) : Store.below? k (key k p) = some (text p) := by
  by_cases hk : k = []
  · subst hk
    exact congrArg some (key_root hp hne)
  · have htail : Key.tail? k (key k p) = some (suffix p) := by
      cases p with
      | nil => exact absurd rfl hne
      | cons s p =>
        rw [Key.tail?_eq_some_iff, key_eq hp hk]
        cases s with
        | name n => exact ⟨_, _, .inl rfl, rfl, rfl⟩
        | index i => exact ⟨_, _, .inr rfl, rfl, rfl⟩
    rw [Store.below?, if_neg (by simpa using hk), htail]
    cases p with
    | nil => exact absurd rfl hne
    | cons s p => cases s <;> rfl

end

/-- A path leads from a key to what is below it, and from the root to everything. -/
theorem isSome_below?_iff {k q : Text} :
    (Store.below? k q).isSome = true ↔ k = [] ∨ Key.Below k q := by
  by_cases hk : k = []
  · simp [Store.below?, hk]
  · rw [Store.below?, if_neg (by simpa using hk), ← Key.isBelow_iff, Key.isBelow]
    simp only [hk, false_or]
    split
    · rename_i rest h
      simp only [h, Option.isSome_some]
    · rfl

theorem scope_of_below? {k q path : Text} (h : Store.below? k q = some path) : Key.Scope k q :=
  (isSome_below?_iff.1 (h ▸ rfl)).imp_right .inr

/-! ## Reading a path -/

theorem cutAt?_digits (i : Nat) (rest : Text) :
    Text.cutAt? ']' (digits i ++ ']' :: rest) = some (digits i, rest) :=
  Text.cutAt?_append (Number.not_mem_digits (by decide))

theorem brackets_index {limit i : Nat} (hi : Readable limit (.index i)) (rest : Text) :
    brackets limit ('[' :: digits i ++ ']' :: rest) = .index i :: brackets limit rest := by
  have hc := cutAt?_digits i rest
  have hlt : (i : Int) < limit := Int.ofNat_lt.2 hi.1
  rw [List.cons_append, brackets]
  split
  · rename_i numeral rest' h
    obtain ⟨rfl, rfl⟩ : numeral = digits i ∧ rest' = rest := by simpa using h.symm.trans hc
    simp only [IntType.usize.read?_digits hi.2, hlt, if_true, Int.toNat_natCast]
  · rename_i h
    rw [hc] at h
    cases h

/-- A number that is too large is a name, together with all that follows it up to a dot. -/
theorem brackets_unreadable {limit i : Nat} (hi : ¬ Readable limit (.index i)) (rest : Text) :
    brackets limit ('[' :: digits i ++ ']' :: rest) = [.name ('[' :: digits i ++ ']' :: rest)] := by
  have hc := cutAt?_digits i rest
  rw [List.cons_append, brackets]
  split
  · rename_i numeral rest' h
    obtain ⟨rfl, rfl⟩ : numeral = digits i ∧ rest' = rest := by simpa using h.symm.trans hc
    rw [IntType.read?_digits_eq]
    cases hh : IntType.usize.holds i with
    | true =>
      have hlt : ¬ (i : Int) < limit := fun hlt => hi ⟨Int.ofNat_lt.1 hlt, hh⟩
      simp only [Option.filter_some_pos hh, hlt, if_false]
    | false => simp only [Option.filter_some_neg hh]
  · rfl

/-- A piece of a path between two dots that has no name. -/
def IsBare (piece : Text) : Prop :=
  piece = [] ∨ ∃ rest, piece = '[' :: rest

theorem part_bare {limit : Nat} {piece : Text} (h : IsBare piece) :
    part limit piece = brackets limit piece := by
  rcases h with rfl | ⟨rest, rfl⟩ <;> simp [part]

theorem part_name {limit : Nat} {n piece : Text} (hn : Key.IsName n) (h : IsBare piece) :
    part limit (n ++ piece) = .name n :: brackets limit piece := by
  have hne : ∀ c ∈ n, (c != '[') = true := fun c hc => by
    simpa using fun e : c = '[' => hn.2.2 (e ▸ hc)
  have ht : piece.takeWhile (· != '[') = [] := by rcases h with rfl | ⟨rest, rfl⟩ <;> rfl
  have hd : piece.dropWhile (· != '[') = piece := by rcases h with rfl | ⟨rest, rfl⟩ <;> rfl
  simp only [part, List.takeWhile_append_of_pos hne, List.dropWhile_append_of_pos hne, ht, hd,
    List.append_nil, List.isEmpty_eq_false_iff.2 hn.1, Bool.false_eq_true, if_false,
    List.cons_append, List.nil_append]

/-- What the segments of a path that has been read stand for in a key. Brackets that are not numbers
are in a name. -/
def spell : List Segment → Text
  | [] => []
  | .name ('[' :: n) :: p => '[' :: n ++ spell p
  | .name n :: p => '.' :: n ++ spell p
  | .index i :: p => '[' :: digits i ++ ']' :: spell p

theorem spell_name {n : Text} (hn : Key.IsName n) (p : List Segment) :
    spell (.name n :: p) = '.' :: n ++ spell p := by
  rw [spell]
  rintro m rfl
  exact hn.2.2 List.mem_cons_self

theorem spell_append (p p' : List Segment) : spell (p ++ p') = spell p ++ spell p' := by
  induction p using spell.induct with
  | case1 => rfl
  | case2 n p ih => simp only [List.cons_append, spell, ih, List.append_assoc]
  | case3 n p hn ih =>
    rw [List.cons_append, spell, spell, ih, List.append_assoc]
    · exact hn
    · exact hn
  | case4 i p ih => simp only [List.cons_append, spell, ih, List.append_assoc]

/-- Every segment starts with a mark. -/
theorem isMark_of_spell (p : List Segment) : ∀ c ∈ (spell p).head?, Key.IsMark c := by
  fun_cases spell p <;> simp [Key.IsMark]

/-- The pieces of what a path adds to a key. The first one has no name, and together they are read as a
path that spells the same, which is the path itself when its numbers can be read. -/
theorem splitOn_suffix (limit : Nat) {p : List Segment} (hp : ∀ s ∈ p, Plain s) :
    ∃ piece pieces, List.splitOn '.' (suffix p) = piece :: pieces ∧ IsBare piece ∧
      spell (brackets limit piece) = piece ∧
      piece ++ spell (pieces.flatMap (part limit)) = suffix p ∧
      ((∀ s ∈ p, Readable limit s) → brackets limit piece ++ pieces.flatMap (part limit) = p) := by
  induction p with
  | nil =>
    have hnil : brackets limit [] = [] := by rw [brackets]
    exact ⟨[], [], rfl, .inl rfl, by rw [hnil]; rfl, rfl, fun _ => by rw [hnil]; rfl⟩
  | cons s p ih =>
    obtain ⟨piece, pieces, hs, hb, hspell, hsuffix, he⟩ :=
      ih fun s hs => hp s (List.mem_cons_of_mem _ hs)
    have hs' := hp s List.mem_cons_self
    cases s with
    | name n =>
      refine ⟨[], (n ++ piece) :: pieces, ?_, .inl rfl, ?_, ?_, fun hr => ?_⟩
      · rw [suffix, List.cons_append, List.splitOn_cons_eq_if_modifyHead, if_pos (beq_self_eq_true '.'),
          splitOn_of_append hs'.2.1, hs, List.modifyHead_cons]
      · rw [brackets]; rfl
      · rw [List.flatMap_cons, part_name hs' hb, List.cons_append, spell_name hs', spell_append, hspell,
          hsuffix]
        rfl
      · rw [List.flatMap_cons, part_name hs' hb, List.cons_append,
          he fun s hs => hr s (List.mem_cons_of_mem _ hs), brackets]
        rfl
    | index i =>
      have hx : '.' ∉ '[' :: digits i ++ [']'] := by
        simpa using Number.not_mem_digits (n := i) (c := '.') (by decide)
      have hindex : suffix (.index i :: p) = ('[' :: digits i ++ [']']) ++ suffix p := by
        simp only [suffix, List.append_assoc, List.cons_append, List.nil_append]
      have hpiece : ('[' :: digits i ++ [']']) ++ piece = '[' :: digits i ++ ']' :: piece := by
        simp only [List.append_assoc, List.cons_append, List.nil_append]
      refine ⟨'[' :: digits i ++ ']' :: piece, pieces, ?_, .inr ⟨_, rfl⟩, ?_, ?_, fun hr => ?_⟩
      · rw [hindex, splitOn_of_append hx, hs, List.modifyHead_cons, hpiece]
      · by_cases hi : Readable limit (.index i)
        · rw [brackets_index hi, spell, hspell]
        · rw [brackets_unreadable hi]
          exact List.append_nil _
      · rw [hindex, ← hpiece, List.append_assoc, hsuffix]
      · rw [brackets_index (hr _ List.mem_cons_self), List.cons_append,
          he fun s hs => hr s (List.mem_cons_of_mem _ hs)]

/-- The pieces of a path as a text: those of what it adds to a key, behind its first name. -/
theorem split_eq {limit : Nat} {p : List Segment} (hp : ∀ s ∈ p, Plain s) (hne : p ≠ []) :
    spell (split limit (text p)) = suffix p ∧
      ((∀ s ∈ p, Readable limit s) → split limit (text p) = p) := by
  cases p with
  | nil => exact absurd rfl hne
  | cons s p =>
    cases s with
    | name n =>
      have hn : Key.IsName n := hp _ List.mem_cons_self
      obtain ⟨piece, pieces, hs, hb, hspell, hsuffix, he⟩ :=
        splitOn_suffix limit fun s hs => hp s (List.mem_cons_of_mem _ hs)
      rw [text, split, splitOn_of_append hn.2.1, hs, List.modifyHead_cons, List.flatMap_cons,
        part_name hn hb, List.cons_append]
      refine ⟨?_, fun hr => ?_⟩
      · rw [spell_name hn, spell_append, hspell, hsuffix, suffix]
      · rw [he fun s hs => hr s (List.mem_cons_of_mem _ hs)]
    | index i =>
      obtain ⟨piece, pieces, hs, hb, hspell, hsuffix, he⟩ := splitOn_suffix limit hp
      have htext : text (.index i :: p) = suffix (.index i :: p) := rfl
      rw [htext, split, hs, List.flatMap_cons, part_bare hb]
      exact ⟨by rw [spell_append, hspell, hsuffix], he⟩

/-- Reading the text of a path gives a path that spells the same. -/
theorem spell_split {limit : Nat} {p : List Segment} (hp : ∀ s ∈ p, Plain s) (hne : p ≠ []) :
    spell (split limit (text p)) = suffix p :=
  (split_eq hp hne).1

/-- Reading the text of a path gives the path, when its numbers can be read. -/
theorem split_text {limit : Nat} {p : List Segment} (hp : ∀ s ∈ p, Readable limit s)
    (hne : p ≠ []) : split limit (text p) = p :=
  (split_eq (fun s hs => (hp s hs).plain) hne).2 hp

end ConfigGraph.Path
