import ConfigGraph.Text.Blank
import Mathlib.Data.List.TakeWhile

/-!
# Texts and their pieces

A text is cut at the first occurrence of a character (`cutAt?_append`, `splitOn_of_append`), and what
stands between two texts in order has the beginning that both have (`prefix_of_between`). The character
does not occur in the pieces (`not_mem_of_mem_splitOn`). A text is replaced by another one where it is
met first, and on behind it (`replace_append`, `replace_cons`).
-/

namespace ConfigGraph

section

variable {α : Type} {p : α → Bool} {l : List α}

/-- Items are numbered differently. -/
theorem pairwise_zipIdx (l : List α) : l.zipIdx.Pairwise fun a b => a.2 ≠ b.2 := by
  refine List.pairwise_map.1 ?_
  rw [List.zipIdx_map_snd]
  exact List.nodup_range'

/-- Where those with a property come first, taking them while they last takes them all. -/
theorem takeWhile_eq_filter (h : l.Pairwise fun a b => p b = true → p a = true) :
    l.takeWhile p = l.filter p := by
  induction l with
  | nil => rfl
  | cons a l ih =>
    obtain ⟨ha, hl⟩ := List.pairwise_cons.1 h
    by_cases hp : p a = true
    · rw [List.takeWhile_cons_of_pos hp, List.filter_cons_of_pos hp, ih hl]
    · rw [List.takeWhile_cons_of_neg hp, List.filter_cons_of_neg hp, eq_comm, List.filter_eq_nil_iff]
      exact fun b hb hpb => hp (ha b hb hpb)

/-- Where those with a property come last, dropping the others while they last drops them all. -/
theorem dropWhile_eq_filter (h : l.Pairwise fun a b => p a = true → p b = true) :
    (l.dropWhile fun a => !p a) = l.filter p := by
  induction l with
  | nil => rfl
  | cons a l ih =>
    obtain ⟨ha, hl⟩ := List.pairwise_cons.1 h
    by_cases hp : p a = true
    · rw [List.dropWhile_cons_of_neg (by simp [hp]), List.filter_cons_of_pos hp, eq_comm,
        List.filter_eq_self.2 fun b hb => ha b hb hp]
    · rw [List.dropWhile_cons_of_pos (by simp [hp]), List.filter_cons_of_neg hp, ih hl]

/-- What is taken ends where the property does. -/
theorem takeWhile_append_eq {r : List α} (hl : ∀ a ∈ l, p a = true)
    (hr : ∀ a, r.head? = some a → p a = false) :
    (l ++ r).takeWhile p = l ∧ (l ++ r).dropWhile p = r := by
  rw [List.takeWhile_append_of_pos hl, List.dropWhile_append_of_pos hl]
  cases r with
  | nil => exact ⟨List.append_nil _, rfl⟩
  | cons a r =>
    have ha : ¬ p a = true := by rw [hr a rfl]; decide
    rw [List.takeWhile_cons_of_neg ha, List.dropWhile_cons_of_neg ha, List.append_nil]
    exact ⟨rfl, rfl⟩

/-- What a separator does not occur in goes on the front of the first piece of what follows. -/
theorem splitOn_of_append [BEq α] [LawfulBEq α] {sep : α} (hl : sep ∉ l) (r : List α) :
    List.splitOn sep (l ++ r) = (List.splitOn sep r).modifyHead (l ++ ·) := by
  induction l with
  | nil => exact (congrFun List.modifyHead_id (List.splitOn sep r)).symm
  | cons a l ih =>
    have ha : ¬ (a == sep) = true := fun h => hl (beq_iff_eq.1 h ▸ List.mem_cons_self)
    rw [List.cons_append, List.splitOn_cons_eq_if_modifyHead, if_neg ha,
      ih fun hm => hl (List.mem_cons_of_mem _ hm), List.modifyHead_modifyHead]
    rfl

/-- The first piece is what stands before the first separator. -/
theorem head?_splitOn [BEq α] (sep : α) (l : List α) :
    (List.splitOn sep l).head? = some (l.takeWhile (· != sep)) := by
  induction l with
  | nil => rfl
  | cons a l ih =>
    rw [List.splitOn_cons_eq_if_modifyHead, List.takeWhile_cons, bne]
    cases a == sep with
    | true => rfl
    | false => exact (List.head?_modifyHead ..).trans (congrArg _ ih)

theorem not_mem_of_mem_splitOn [BEq α] [LawfulBEq α] {sep : α} {piece : List α}
    (h : piece ∈ List.splitOn sep l) : sep ∉ piece := by
  induction l generalizing piece with
  | nil =>
    rw [List.mem_singleton.1 h]
    exact List.not_mem_nil
  | cons a l ih =>
    obtain ⟨first, pieces, hs⟩ := List.exists_cons_of_ne_nil (List.splitOn_ne_nil sep l)
    rw [List.splitOn_cons_eq_if_modifyHead, hs] at h
    rw [hs] at ih
    split at h
    · rcases List.mem_cons.1 h with rfl | h
      · exact List.not_mem_nil
      · exact ih h
    · rename_i ha
      rcases List.mem_cons.1 h with rfl | h
      · exact List.not_mem_cons_of_ne_of_not_mem (fun e => ha (beq_iff_eq.2 e.symm))
          (ih List.mem_cons_self)
      · exact ih (List.mem_cons_of_mem _ h)

end

namespace Text

/-! ## Order -/

theorem before_append (s : Text) {rest : Text} (h : rest ≠ []) : before s (s ++ rest) = true := by
  induction s with
  | nil =>
    obtain ⟨c, rest, rfl⟩ := List.exists_cons_of_ne_nil h
    rfl
  | cons a s ih => simp [before, ih]

/-- A text between another one and a continuation of that one continues it, too. -/
theorem prefix_of_between {s t u : Text} (hst : before s t = true) (htu : before t u = true)
    (h : s <+: u) : s <+: t := by
  induction s generalizing t u with
  | nil => exact List.nil_prefix
  | cons a s ih =>
    obtain ⟨u, rfl, hu⟩ := List.cons_prefix_iff.1 h
    cases t with
    | nil => simp [before] at hst
    | cons b t =>
      simp only [before, Bool.or_eq_true, decide_eq_true_eq, Bool.and_eq_true, beq_iff_eq] at hst htu
      have hab : a = b := by
        rcases hst with hst | ⟨hab, -⟩
        · rcases htu with htu | ⟨hba, -⟩
          · omega
          · exact hba.symm
        · exact hab
      subst hab
      have hst' : before s t = true := hst.elim (fun h => absurd h (Nat.lt_irrefl _)) And.right
      have htu' : before t u = true := htu.elim (fun h => absurd h (Nat.lt_irrefl _)) And.right
      exact List.cons_prefix_cons.2 ⟨rfl, ih hst' htu' hu⟩

/-! ## Pieces -/

/-- What stands before the first occurrence of a character, and what follows it. -/
theorem append_cons_inj {c : Char} {x y s t : Text} (hx : c ∉ x) (hy : c ∉ y)
    (h : x ++ c :: s = y ++ c :: t) : x = y ∧ s = t := by
  induction x generalizing y with
  | nil => cases y with
    | nil => exact ⟨rfl, (List.cons.inj h).2⟩
    | cons d y => exact absurd (List.cons.inj h).1 fun e => hy (e ▸ List.mem_cons_self)
  | cons a x ih => cases y with
    | nil => exact absurd (List.cons.inj h).1 fun e => hx (e ▸ List.mem_cons_self)
    | cons d y =>
      obtain ⟨rfl, ht⟩ := List.cons.inj h
      obtain ⟨rfl, hst⟩ := ih (fun hm => hx (List.mem_cons_of_mem _ hm))
        (fun hm => hy (List.mem_cons_of_mem _ hm)) ht
      exact ⟨rfl, hst⟩

theorem cutAt?_append {sep : Char} {x y : Text} (hx : sep ∉ x) :
    cutAt? sep (x ++ sep :: y) = some (x, y) := by
  have hne : ∀ c ∈ x, (c != sep) = true := fun c hc => by
    simpa using fun e : c = sep => hx (e ▸ hc)
  rw [cutAt?, List.dropWhile_append_of_pos hne, List.takeWhile_append_of_pos hne]
  simp

/-- What a text is cut into is the text, and in front of the cut there is no separator. -/
theorem eq_append_of_cutAt? {sep : Char} {s x y : Text} (h : cutAt? sep s = some (x, y)) :
    s = x ++ sep :: y ∧ sep ∉ x := by
  unfold cutAt? at h
  split at h
  · cases h
  · rename_i c rest hdrop
    cases h
    have hc : c = sep := by
      have := List.head?_dropWhile_not (· != sep) s
      rw [hdrop] at this
      simpa using this
    have hfront : (s.takeWhile (· != sep)).all (· != sep) = true := List.all_takeWhile
    refine ⟨?_, fun hm => by simpa using List.all_eq_true.1 hfront _ hm⟩
    rw [← hc] at hdrop ⊢
    rw [← hdrop, List.takeWhile_append_dropWhile]

/-- A text in which the separator does not occur is not cut. -/
theorem cut?_eq_none {sep s : Text} (h : ¬ sep <:+: s) : cut? sep s = none := by
  induction s with
  | nil =>
    rw [cut?, if_neg]
    intro hs
    exact h (List.isEmpty_iff.1 hs ▸ List.nil_infix)
  | cons c s ih =>
    rw [cut?, if_neg fun hs => h (List.isPrefixOf_iff_prefix.1 hs).isInfix,
      ih fun hs => h (hs.trans (List.suffix_cons c s).isInfix)]
    rfl

/-- Two different characters that first occur together behind a text cut it there. -/
theorem cut?_append {a b : Char} (hab : a ≠ b) {x : Text} (hx : ¬ [a, b] <:+: x) (y : Text) :
    cut? [a, b] (x ++ [a, b] ++ y) = some (x, y) := by
  induction x with
  | nil => exact if_pos (List.isPrefixOf_iff_prefix.2 (List.prefix_append [a, b] y))
  | cons c x ih =>
    have hsep : ¬ [a, b].isPrefixOf (c :: (x ++ [a, b] ++ y)) = true := by
      intro h
      obtain ⟨rfl, hb⟩ := List.cons_prefix_cons.1 (List.isPrefixOf_iff_prefix.1 h)
      cases x with
      | nil => exact hab (List.cons_prefix_cons.1 hb).1.symm
      | cons d x =>
        obtain ⟨rfl, -⟩ := List.cons_prefix_cons.1 hb
        exact hx (List.prefix_append [a, b] x).isInfix
    show cut? [a, b] (c :: (x ++ [a, b] ++ y)) = _
    rw [cut?, if_neg hsep, ih fun h => hx (h.trans (List.suffix_cons c x).isInfix)]
    rfl

theorem trim_eq_self {s : Text} (h : ∀ c ∈ s, isBlank c = false) : trim s = s := by
  have hd : ∀ t : Text, (∀ c ∈ t, isBlank c = false) → t.dropWhile isBlank = t := by
    intro t ht
    cases t with
    | nil => rfl
    | cons c t => rw [List.dropWhile_cons_of_neg (by simp [ht c List.mem_cons_self])]
  rw [trim, hd s h, trimEnd, hd _ fun c hc => h c (List.mem_reverse.1 hc), List.reverse_reverse]

/-- A text without white space around it keeps none when one without any white space follows. -/
theorem trim_append {s t : Text} (hs : trim s = s) (hne : s ≠ []) (ht : ∀ c ∈ t, isBlank c = false) :
    trim (s ++ t) = s ++ t := by
  have hlen : s.length ≤ (s.dropWhile isBlank).length := by
    calc s.length = (trim s).length := by rw [hs]
      _ = ((s.dropWhile isBlank).reverse.dropWhile isBlank).length := by
        rw [trim, trimEnd, List.length_reverse]
      _ ≤ (s.dropWhile isBlank).reverse.length := (List.dropWhile_sublist _).length_le
      _ = (s.dropWhile isBlank).length := List.length_reverse
  have hstart : s.dropWhile isBlank = s := (List.dropWhile_sublist _).eq_of_length_le hlen
  have hend : trimEnd s = s := by rwa [trim, hstart] at hs
  have hfront : (s ++ t).dropWhile isBlank = s ++ t := by
    rw [List.dropWhile_append, hstart, if_neg (by simpa using hne)]
  rw [trim, hfront]
  rcases List.eq_nil_or_concat t with rfl | ⟨t, c, rfl⟩
  · rw [List.append_nil, hend]
  · have hc : isBlank c = false := ht c (by simp)
    rw [List.concat_eq_append, ← List.append_assoc, trimEnd, List.reverse_concat,
      List.dropWhile_cons_of_neg (by simp [hc]), List.reverse_cons, List.reverse_reverse]

theorem isBlank_of_isDigit {c : Char} (h : isDigit c = true) : isBlank c = false := by
  simp only [isDigit, Bool.and_eq_true, decide_eq_true_eq] at h
  simp only [isBlank, Bool.or_eq_false_iff, Bool.and_eq_false_iff, decide_eq_false_iff_not,
    beq_eq_false_iff_ne]
  omega

/-- Two characters that stand next to each other, of which the second is not in what follows, stand in
front of it. -/
theorem pair_infix_of_append {a b : Char} {s t : Text} (hb : b ∉ t) (h : [a, b] <:+: s ++ t) :
    [a, b] <:+: s := by
  obtain ⟨x, y, hxy⟩ := h
  rcases List.append_eq_append_iff.1 hxy with ⟨m, rfl, -⟩ | ⟨m, hm, rfl⟩
  · exact ⟨x, m, rfl⟩
  · rcases List.eq_nil_or_concat m with rfl | ⟨m, c, rfl⟩
    · rw [List.append_nil] at hm
      exact hm ▸ (List.suffix_append x [a, b]).isInfix
    · have hlast : b = c := by simpa using congrArg List.getLast? hm
      exact absurd (by simp [hlast]) hb

/-! ## Replacing -/

section

variable {sep new s : Text} {c : Char}

theorem splitOn_ne_nil (sep s : Text) : splitOn sep s ≠ [] := by
  rw [splitOn]
  split
  · exact List.cons_ne_nil _ _
  · split <;> exact List.cons_ne_nil _ _

theorem splitOn_eq (hsep : sep ≠ []) (s : Text) : splitOn sep s = match cut? sep s with
    | none => [s]
    | some (head, rest) => head :: splitOn sep rest := by
  rw [splitOn, dif_neg hsep]
  split
  · rename_i h
    simp only [h]
  · rename_i h
    simp only [h]

theorem splitOn_append (hsep : sep ≠ []) (s : Text) :
    splitOn sep (sep ++ s) = [] :: splitOn sep s := by
  obtain ⟨c, tail, rfl⟩ := List.exists_cons_of_ne_nil hsep
  have hfront : (c :: tail).isPrefixOf (c :: (tail ++ s)) = true :=
    List.isPrefixOf_iff_prefix.2 (List.prefix_append (c :: tail) s)
  rw [splitOn_eq hsep, List.cons_append, cut?, if_pos hfront]
  simp

theorem splitOn_cons (h : ¬ sep <+: c :: s) :
    splitOn sep (c :: s) = (splitOn sep s).modifyHead (c :: ·) := by
  have hsep : sep ≠ [] := fun e => h (e ▸ List.nil_prefix)
  rw [splitOn_eq hsep, splitOn_eq hsep s, cut?, if_neg fun hs => h (List.isPrefixOf_iff_prefix.1 hs)]
  cases cut? sep s with
  | none => rfl
  | some pieces => rfl

theorem replace_nil (hsep : sep ≠ []) (new : Text) : replace sep new [] = [] := by
  have hcut : cut? sep [] = none := by
    rw [cut?, if_neg fun h => hsep (List.isEmpty_iff.1 h)]
  rw [replace, splitOn_eq hsep, hcut]
  rfl

/-- Where the text to be replaced is met, it is replaced, and then what follows it. -/
theorem replace_append (hsep : sep ≠ []) (new s : Text) :
    replace sep new (sep ++ s) = new ++ replace sep new s := by
  rw [replace, splitOn_append hsep, List.intercalate_cons_of_ne_nil (splitOn_ne_nil _ _)]
  rfl

/-- Where the text to be replaced does not start, the first character stays. -/
theorem replace_cons (h : ¬ sep <+: c :: s) (new : Text) :
    replace sep new (c :: s) = c :: replace sep new s := by
  obtain ⟨piece, pieces, hs⟩ := List.exists_cons_of_ne_nil (splitOn_ne_nil sep s)
  rw [replace, replace, splitOn_cons h, hs]
  cases pieces <;> rfl

end

end Text

end ConfigGraph
