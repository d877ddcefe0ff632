import ConfigGraph.Proofs.Reference.Tag
import Mathlib.Data.List.DropRight

/-!
# Balanced references

A text is balanced (`Balanced`) when it closes each reference that it opens and no other one. The
brace that the scan finds is the first in front of which the text is balanced
(`closing?_eq_some_iff`). So a tag is an opener, a balanced text and a closing brace
(`Tag.parse_eq_ok_iff`), and as the white space that a key loses is neither an opener nor a brace, the
text of a tag is read as that tag (`Tag.parse_single_reference`).
-/

namespace ConfigGraph

namespace Reference

/-- The number of openers in a text. -/
def openers : Text → Nat
  | '$' :: '{' :: rest => openers rest + 1
  | _ :: rest => openers rest
  | [] => 0

/-- Behind `depth` openers, each reference that is opened in the text or in front of it is closed in
it, and before its end none is closed that is not open. -/
structure Closes (depth : Nat) (s : Text) : Prop where
  settled : s.count '}' = openers s + depth
  sane : ∀ p, p <+: s → p.count '}' ≤ openers p + depth

/-- There are as many closing braces as openers in the text, and at no point more of them. -/
abbrev Balanced (s : Text) : Prop :=
  Closes 0 s

section

variable {a b k s t p : Text} {c : Char} {depth i n : Nat}

theorem openers_cons (h : ∀ rest, c = '$' → s = '{' :: rest → False) :
    openers (c :: s) = openers s := by
  rw [openers]
  exact h

theorem openers_opener (s : Text) : openers ('$' :: '{' :: s) = openers s + 1 := by
  rw [openers]

/-- What does not start with a brace completes no opener. -/
theorem openers_append (h : t.head? ≠ some '{') : openers (s ++ t) = openers s + openers t := by
  fun_induction openers s with
  | case1 rest ih =>
    rw [List.cons_append, List.cons_append, openers_opener, ih]
    omega
  | case2 c rest hc ih =>
    rw [List.cons_append, openers_cons, ih]
    rintro tail rfl htail
    cases rest with
    | nil => exact h (by rw [show t = '{' :: tail from htail]; rfl)
    | cons d rest =>
      obtain ⟨rfl, -⟩ := List.cons.inj htail
      exact hc rest rfl rfl
  | case3 => rw [List.nil_append, Nat.zero_add]

/-- A text without dollar signs opens nothing. -/
theorem openers_append_right (h : '$' ∉ a) : openers (a ++ s) = openers s := by
  induction a with
  | nil => rfl
  | cons c a ih =>
    rw [List.cons_append, openers_cons, ih fun hm => h (List.mem_cons_of_mem _ hm)]
    rintro - rfl -
    exact h List.mem_cons_self

/-- The beginnings of two texts behind each other. -/
theorem prefix_append_cases (h : p <+: s ++ t) : p <+: s ∨ ∃ q, q <+: t ∧ p = s ++ q := by
  rcases List.prefix_or_prefix_of_prefix h (List.prefix_append s t) with hp | ⟨q, rfl⟩
  · exact .inl hp
  · exact .inr ⟨q, (List.prefix_append_right_inj s).1 h, rfl⟩

/-- What stands in front of a text and closes nothing that is not open changes how many references
are open in front of the text, and nothing else. -/
theorem closes_append {depth' : Nat} (hfront : ∀ p, p <+: a → p.count '}' ≤ openers p + depth)
    (hshift : ∀ q, q <+: s →
      (a ++ q).count '}' + openers q + depth' = q.count '}' + openers (a ++ q) + depth) :
    Closes depth (a ++ s) ↔ Closes depth' s := by
  constructor
  · intro h
    refine ⟨?_, fun q hq => ?_⟩
    · have := h.settled
      have := hshift s (List.prefix_refl s)
      omega
    · have := h.sane (a ++ q) ((List.prefix_append_right_inj a).2 hq)
      have := hshift q hq
      omega
  · intro h
    refine ⟨?_, fun p hp => ?_⟩
    · have := h.settled
      have := hshift s (List.prefix_refl s)
      omega
    · rcases prefix_append_cases hp with hp | ⟨q, hq, rfl⟩
      · exact hfront p hp
      · have := h.sane q hq
        have := hshift q hq
        omega

/-! ## What a scan sees at one more character -/

theorem closes_opener : Closes depth ('$' :: '{' :: s) ↔ Closes (depth + 1) s := by
  refine closes_append (a := ['$', '{']) (fun p hp => ?_) fun q _ => ?_
  · have : p.count '}' = 0 := List.count_eq_zero.2 fun hm => absurd (hp.subset hm) (by decide)
    omega
  · show ('$' :: '{' :: q).count '}' + _ + _ = _ + openers ('$' :: '{' :: q) + _
    rw [openers_opener, List.count_cons_of_ne (by decide), List.count_cons_of_ne (by decide)]
    omega

theorem closes_brace : Closes (depth + 1) ('}' :: s) ↔ Closes depth s := by
  refine closes_append (a := ['}']) (fun p hp => ?_) fun q _ => ?_
  · have := hp.sublist.count_le '}'
    have : ['}'].count '}' = 1 := rfl
    omega
  · show ('}' :: q).count '}' + _ + _ = _ + openers ('}' :: q) + _
    rw [openers_cons fun _ h => absurd h (by decide), List.count_cons_self]
    omega

/-- Where nothing is open, nothing can be closed. -/
theorem not_closes_brace : ¬ Closes 0 ('}' :: s) := fun h =>
  absurd (h.sane ['}'] (List.prefix_append ['}'] s)) (by decide)

theorem closes_cons (hb : c ≠ '}') (hc : ∀ rest, c = '$' → s = '{' :: rest → False) :
    Closes depth (c :: s) ↔ Closes depth s := by
  refine closes_append (a := [c]) (fun p hp => ?_) fun q hq => ?_
  · have : p.count '}' = 0 := List.count_eq_zero.2 fun hm =>
      hb (List.mem_singleton.1 (hp.subset hm)).symm
    omega
  · have hopen : openers (c :: q) = openers q := by
      refine openers_cons ?_
      rintro rest hd rfl
      obtain ⟨tail, rfl⟩ := hq
      exact hc (rest ++ tail) hd rfl
    show (c :: q).count '}' + _ + _ = _ + openers (c :: q) + _
    rw [hopen, List.count_cons_of_ne hb]

theorem closes_nil : Closes depth [] ↔ depth = 0 := by
  constructor
  · intro h
    simpa [openers] using h.settled.symm
  · rintro rfl
    exact ⟨rfl, fun p hp => by rw [List.prefix_nil.1 hp]; exact Nat.zero_le _⟩

/-- The brace that is found is the first in front of which every reference but one is closed. -/
theorem closing?_eq_some_iff : closing? s depth i = some n ↔
    ∃ inner rest, s = inner ++ '}' :: rest ∧ n = i + inner.length ∧ Closes depth inner := by
  fun_induction closing? s depth i with
  | case1 rest depth i ih =>
    rw [ih]
    constructor
    · rintro ⟨inner, tail, rfl, rfl, h⟩
      exact ⟨'$' :: '{' :: inner, tail, rfl, by simp only [List.length_cons]; omega,
        closes_opener.2 h⟩
    · rintro ⟨inner, tail, hs, rfl, h⟩
      obtain _ | ⟨c, _ | ⟨d, inner⟩⟩ := inner <;> cases hs
      exact ⟨inner, tail, rfl, by simp only [List.length_cons]; omega, closes_opener.1 h⟩
  | case2 rest i =>
    constructor
    · intro h
      cases h
      exact ⟨[], rest, rfl, rfl, closes_nil.2 rfl⟩
    · rintro ⟨inner, tail, hs, rfl, h⟩
      obtain _ | ⟨c, inner⟩ := inner <;> cases hs
      · rfl
      · exact absurd h not_closes_brace
  | case3 rest depth i ih =>
    rw [ih]
    constructor
    · rintro ⟨inner, tail, rfl, rfl, h⟩
      exact ⟨'}' :: inner, tail, rfl, by simp only [List.length_cons]; omega, closes_brace.2 h⟩
    · rintro ⟨inner, tail, hs, rfl, h⟩
      obtain _ | ⟨c, inner⟩ := inner <;> cases hs
      · exact absurd (closes_nil.1 h) (Nat.succ_ne_zero _)
      · exact ⟨inner, tail, rfl, by simp only [List.length_cons]; omega, closes_brace.1 h⟩
  | case4 c rest depth i hopen hbrace ih =>
    rw [ih]
    constructor
    · rintro ⟨inner, tail, rfl, rfl, h⟩
      refine ⟨c :: inner, tail, rfl, by simp only [List.length_cons]; omega, ?_⟩
      exact (closes_cons hbrace fun r hc hr => hopen (r ++ '}' :: tail) hc (by rw [hr]; rfl)).2 h
    · rintro ⟨inner, tail, hs, rfl, h⟩
      obtain _ | ⟨d, inner⟩ := inner <;> cases hs
      · exact absurd rfl hbrace
      · refine ⟨inner, tail, rfl, by simp only [List.length_cons]; omega, ?_⟩
        exact (closes_cons hbrace fun r hc hr =>
          hopen (r ++ '}' :: tail) hc (by rw [hr]; rfl)).1 h
  | case5 =>
    constructor
    · intro h
      cases h
    · rintro ⟨inner, tail, hs, -, -⟩
      cases inner <;> cases hs

theorem closing?_eq_none_iff : closing? s depth i = none ↔
    ∀ inner rest, s = inner ++ '}' :: rest → ¬ Closes depth inner := by
  rw [Option.eq_none_iff_forall_ne_some]
  constructor
  · intro h inner rest hs hc
    exact h _ (closing?_eq_some_iff.2 ⟨inner, rest, hs, rfl, hc⟩)
  · intro h n hn
    obtain ⟨inner, rest, hs, -, hc⟩ := closing?_eq_some_iff.1 hn
    exact h inner rest hs hc

/-- What follows an opener is closed by the last brace, if the text in front of it is balanced. -/
theorem closing?_append_brace : closing? (s ++ ['}']) 0 i = some (i + s.length) ↔ Balanced s := by
  rw [closing?_eq_some_iff]
  constructor
  · rintro ⟨inner, rest, hs, hlen, h⟩
    obtain ⟨rfl, -⟩ := List.append_inj hs (Nat.add_left_cancel hlen)
    exact h
  · exact fun h => ⟨s, [], rfl, rfl, h⟩

/-- A reference at the very beginning is found, unless it is not closed. -/
theorem find?_opener (rest : Text) : find? ('$' :: '{' :: rest) =
    (closing? rest 0 2).elim (.error .unclosedReference) fun b => .ok (some (0, b)) := by
  have hopen : opening? ('$' :: '{' :: rest) 0 = some 0 := rfl
  simp only [find?, hopen, List.drop_succ_cons, List.drop_zero, Nat.zero_add]
  cases closing? rest 0 2 <;> rfl

/-! ## Balanced texts without some of their white space -/

theorem not_mem_of_isBlank (ha : ∀ c ∈ a, Text.isBlank c = true) (hc : Text.isBlank c = false) :
    c ∉ a :=
  fun hm => by rw [ha c hm] at hc; cases hc

/-- White space in front of a text counts for nothing. -/
theorem closes_blank_append (ha : ∀ c ∈ a, Text.isBlank c = true) :
    Closes depth (a ++ s) ↔ Closes depth s := by
  have hbrace : ∀ p, p <+: a → p.count '}' = 0 := fun p hp =>
    List.count_eq_zero.2 fun hm => not_mem_of_isBlank ha (by decide) (hp.subset hm)
  refine closes_append (fun p hp => ?_) fun q _ => ?_
  · have := hbrace p hp
    omega
  · have := hbrace a (List.prefix_refl a)
    rw [List.count_append, openers_append_right (not_mem_of_isBlank ha (by decide))]
    omega

/-- Nor does white space inside of a text, where what follows does not complete an opener. -/
theorem Closes.of_append_blank (ha : ∀ c ∈ a, Text.isBlank c = true) (ht : t.head? ≠ some '{')
    (h : Closes depth (k ++ (a ++ t))) : Closes depth (k ++ t) := by
  have hcount : a.count '}' = 0 :=
    List.count_eq_zero.2 (not_mem_of_isBlank ha (by decide))
  have hhead : ∀ q, q <+: t → q.head? ≠ some '{' ∧ (a ++ q).head? ≠ some '{' := by
    intro q hq
    have hqt : q.head? ≠ some '{' := by
      obtain ⟨tail, rfl⟩ := hq
      cases q with
      | nil => exact fun h => by cases h
      | cons c q => exact ht
    refine ⟨hqt, ?_⟩
    cases a with
    | nil => exact hqt
    | cons c a =>
      intro he
      cases he
      exact not_mem_of_isBlank ha (by decide) List.mem_cons_self
  have hopen : ∀ q, q <+: t → openers (k ++ (a ++ q)) = openers (k ++ q) := fun q hq => by
    rw [openers_append (hhead q hq).1, openers_append (hhead q hq).2,
      openers_append_right (not_mem_of_isBlank ha (by decide))]
  refine ⟨?_, fun p hp => ?_⟩
  · have := h.settled
    rw [hopen t (List.prefix_refl t)] at this
    simp only [List.count_append] at this ⊢
    omega
  · rcases prefix_append_cases hp with hp | ⟨q, hq, rfl⟩
    · exact h.sane p (hp.trans (List.prefix_append k _))
    · have := h.sane (k ++ (a ++ q)) ((List.prefix_append_right_inj k).2
        ((List.prefix_append_right_inj a).2 hq))
      rw [hopen q hq] at this
      simp only [List.count_append] at this ⊢
      omega

end

end Reference

namespace Text

/-- A text is what is left of it without the white space around it, and white space. -/
theorem exists_trim (s : Text) : ∃ a b, s = a ++ (trim s ++ b) ∧ (∀ c ∈ a, isBlank c = true) ∧
    ∀ c ∈ b, isBlank c = true := by
  refine ⟨s.takeWhile isBlank, (s.dropWhile isBlank).rtakeWhile isBlank, ?_,
    fun c hc => List.mem_takeWhile_imp hc, fun c hc => ?_⟩
  · show _ = _ ++ ((s.dropWhile isBlank).rdropWhile isBlank ++ _)
    rw [List.rdropWhile_append_rtakeWhile, List.takeWhile_append_dropWhile]
  · exact List.mem_takeWhile_imp (List.mem_reverse.1 hc)

theorem trim_trim (s : Text) : trim (trim s) = trim s := by
  have hstart : (trim s).dropWhile isBlank = trim s := by
    refine List.dropWhile_eq_self_iff.2 fun hl => ?_
    have hfront : trim s <+: s.dropWhile isBlank := List.rdropWhile_prefix isBlank _
    have hidem := List.dropWhile_idempotent isBlank s
    have hfirst := List.dropWhile_eq_self_iff.1 hidem (Nat.lt_of_lt_of_le hl hfront.length_le)
    rwa [hfront.getElem hl]
  have hend : trimEnd (trim s) = trim s := List.rdropWhile_idempotent isBlank _
  rw [trim, hstart, hend]

/-- What two characters stand in is cut where they first do. -/
theorem exists_first {a b : Char} {s : Text} (h : [a, b] <:+: s) :
    ∃ x y, s = x ++ [a, b] ++ y ∧ ¬ [a, b] <:+: x := by
  induction s with
  | nil => exact absurd (List.infix_nil.1 h) (List.cons_ne_nil _ _)
  | cons c s ih =>
    by_cases hc : [a, b] <+: c :: s
    · obtain ⟨y, hy⟩ := hc
      exact ⟨[], y, hy.symm, fun hm => absurd (List.infix_nil.1 hm) (List.cons_ne_nil _ _)⟩
    · obtain ⟨x, y, rfl, hx⟩ := ih ((List.infix_cons_iff.1 h).resolve_left hc)
      refine ⟨c :: x, y, rfl, fun hm => ?_⟩
      rcases List.infix_cons_iff.1 hm with hp | hm
      · exact hc (hp.trans ⟨[a, b] ++ y, by simp⟩)
      · exact hx hm

end Text

namespace Tag

open Reference

variable {s inner : Text} {tag : Tag}

/-- What the text inside the braces of a tag says: a key and, behind the first mark of a default, the
default. The white space around the key does not belong to it; the default is taken as it stands. -/
inductive Names : Text → Tag → Prop where
  | key {k : Text} (h : ¬ [':', '='] <:+: k) : Names k ⟨Text.trim k, none⟩
  | default {k : Text} (h : ¬ [':', '='] <:+: k) (d : Text) :
      Names (k ++ [':', '='] ++ d) ⟨Text.trim k, some d⟩

theorem ofInner_of_names (h : Names inner tag) : ofInner inner = tag := by
  cases h with
  | key h => rw [ofInner, Text.cut?_eq_none h]
  | default h d => rw [ofInner, Text.cut?_append (by decide) h]

/-- Every text says something. -/
theorem names_ofInner (inner : Text) : Names inner (ofInner inner) := by
  have hnames : ∃ tag, Names inner tag := by
    by_cases h : [':', '='] <:+: inner
    · obtain ⟨k, d, rfl, hk⟩ := Text.exists_first h
      exact ⟨_, .default hk d⟩
    · exact ⟨_, .key h⟩
  obtain ⟨tag, h⟩ := hnames
  rwa [ofInner_of_names h]

theorem inner?_eq_some_iff : inner? s = some inner ↔ s = ['$', '{'] ++ inner ++ ['}'] := by
  constructor
  · intro h
    unfold inner? at h
    split at h
    · rename_i rest
      split at h
      · rename_i hlast
        cases h
        obtain ⟨front, rfl⟩ := List.getLast?_eq_some_iff.1 hlast
        simp
      · cases h
    · cases h
  · rintro rfl
    simp [inner?]

/-- A text inside of braces is read where the last of them closes the first, and it is no tag where
another one does. -/
theorem parse_enclosed (inner : Text) : parse (['$', '{'] ++ inner ++ ['}']) =
    (closing? (inner ++ ['}']) 0 2).elim (.error .unclosedReference) fun b =>
      if b = 2 + inner.length then .ok (ofInner inner)
      else .error (.invalidTag (['$', '{'] ++ inner ++ ['}'])) := by
  have hfind := find?_opener (inner ++ ['}'])
  have hlen : (['$', '{'] ++ inner ++ ['}']).length - 1 = 2 + inner.length := by
    simp only [List.length_append, List.length_cons, List.length_nil]
    omega
  rw [parse, inner?_eq_some_iff.2 rfl, hlen,
    show find? (['$', '{'] ++ inner ++ ['}']) = _ from hfind]
  cases closing? (inner ++ ['}']) 0 2 with
  | none => rfl
  | some b => simp only [Option.elim_some, Option.some.injEq, Prod.mk.injEq, true_and]

/-- A text is read as a tag exactly if it is an opener, a balanced text that names the tag, and a
closing brace. -/
theorem parse_eq_ok_iff : parse s = .ok tag ↔
    ∃ inner, s = ['$', '{'] ++ inner ++ ['}'] ∧ Balanced inner ∧ Names inner tag := by
  constructor
  · intro h
    cases hi : inner? s with
    | none =>
      rw [parse, hi] at h
      cases h
    | some inner =>
      obtain rfl := inner?_eq_some_iff.1 hi
      rw [parse_enclosed] at h
      cases hb : closing? (inner ++ ['}']) 0 2 with
      | none =>
        rw [hb] at h
        cases h
      | some b =>
        simp only [hb, Option.elim_some] at h
        split at h
        · rename_i hlast
          cases h
          exact ⟨inner, rfl, closing?_append_brace.1 (hlast ▸ hb), names_ofInner inner⟩
        · cases h
  · rintro ⟨inner, rfl, hbalanced, hnames⟩
    rw [parse_enclosed, closing?_append_brace.2 hbalanced, Option.elim_some, if_pos rfl,
      ofInner_of_names hnames]

/-- The text of a tag that was read is a tag, too, and the same one. -/
theorem parse_print_of_parse (h : parse s = .ok tag) : parse tag.print = .ok tag := by
  obtain ⟨inner, -, hbalanced, hnames⟩ := parse_eq_ok_iff.1 h
  cases hnames with
  | key hk =>
    obtain ⟨a, b, hs, ha, hb⟩ := Text.exists_trim inner
    have hinfix : Text.trim inner <:+: inner := ⟨a, b, by rw [List.append_assoc]; exact hs.symm⟩
    refine parse_eq_ok_iff.2 ⟨Text.trim inner, by simp [print], ?_, ?_⟩
    · rw [hs] at hbalanced
      have hkey := (closes_blank_append ha).1 hbalanced
      have := Closes.of_append_blank (t := []) hb (by simp) (by rwa [List.append_nil])
      rwa [List.append_nil] at this
    · have hnames := Names.key (k := Text.trim inner) fun hm => hk (hm.trans hinfix)
      rwa [Text.trim_trim] at hnames
  | @default k hk d =>
    obtain ⟨a, b, hs, ha, hb⟩ := Text.exists_trim k
    have hinfix : Text.trim k <:+: k := ⟨a, b, by rw [List.append_assoc]; exact hs.symm⟩
    refine parse_eq_ok_iff.2 ⟨Text.trim k ++ [':', '='] ++ d, by simp [print], ?_, ?_⟩
    · rw [hs] at hbalanced
      simp only [List.append_assoc] at hbalanced ⊢
      exact Closes.of_append_blank hb (by simp) ((closes_blank_append ha).1 hbalanced)
    · have hnames := Names.default (k := Text.trim k) (fun hm => hk (hm.trans hinfix)) d
      rwa [Text.trim_trim] at hnames

/-- A text is read as a tag exactly if the first brace that closes its opener is its last character.
A text between an opener and a brace that do not belong together is no tag; it is unclosed where no
brace closes its opener. The text of a tag that was read is read as the same tag. -/
theorem parse_single_reference (s : Text) :
    (∀ tag, parse s = .ok tag ↔
      ∃ inner, s = ['$', '{'] ++ inner ++ ['}'] ∧ Balanced inner ∧ Names inner tag) ∧
    (parse s = .error .unclosedReference ↔
      ∃ inner, s = ['$', '{'] ++ inner ++ ['}'] ∧
        ∀ front rest, inner ++ ['}'] = front ++ '}' :: rest → ¬ Balanced front) ∧
    ((∃ tag, parse s = .ok tag) ∨ parse s = .error .unclosedReference ∨
      parse s = .error (.invalidTag s)) ∧
    ∀ tag, parse s = .ok tag → parse tag.print = .ok tag := by
  refine ⟨fun tag => parse_eq_ok_iff, ?_, ?_, fun tag => parse_print_of_parse⟩
  · constructor
    · intro h
      cases hi : inner? s with
      | none =>
        rw [parse, hi] at h
        cases h
      | some inner =>
        obtain rfl := inner?_eq_some_iff.1 hi
        refine ⟨inner, rfl, ?_⟩
        rw [parse_enclosed] at h
        cases hb : closing? (inner ++ ['}']) 0 2 with
        | none => exact closing?_eq_none_iff.1 hb
        | some b =>
          simp only [hb, Option.elim_some] at h
          split at h <;> cases h
    · rintro ⟨inner, rfl, h⟩
      rw [parse_enclosed, closing?_eq_none_iff.2 h]
      rfl
  · cases hi : inner? s with
    | none => exact .inr (.inr (by rw [parse, hi]))
    | some inner =>
      obtain rfl := inner?_eq_some_iff.1 hi
      rw [parse_enclosed]
      cases closing? (inner ++ ['}']) 0 2 with
      | none => exact .inr (.inl rfl)
      | some b =>
        simp only [Option.elim_some]
        split
        · exact .inl ⟨_, rfl⟩
        · exact .inr (.inr rfl)

/-- A key that ends inside of a reference, and a default that starts there. -/
theorem parse_single_reference_halves :
    parse ['$', '{', ' ', '{', 'a', '$', '{', 'b', ':', '=', 'c', '}', ' ', '}'] =
        .ok ⟨['{', 'a', '$', '{', 'b'], some ['c', '}', ' ']⟩ ∧
      parse ['$', '{', '{', 'a', '$', '{', 'b', ':', '=', 'c', '}', ' ', '}'] =
        .ok ⟨['{', 'a', '$', '{', 'b'], some ['c', '}', ' ']⟩ := by
  have h : parse ['$', '{', ' ', '{', 'a', '$', '{', 'b', ':', '=', 'c', '}', ' ', '}'] =
      .ok ⟨['{', 'a', '$', '{', 'b'], some ['c', '}', ' ']⟩ := by rfl
  exact ⟨h, (parse_single_reference _).2.2.2 _ h⟩

end Tag

end ConfigGraph
