import ConfigGraph.Proofs.Reference.Loop
import ConfigGraph.Proofs.Store.Leaf

/-!
# Escaped texts are read as they stand

A text without references stands for itself, but that its escapes are removed (`expand_of_none`). An
escaped text has no opener of a reference (`find?_escape`), and removing the escapes gives the text
(`unescape_escape`). So a text that is stored escaped is what its key stands for
(`tagValue_of_none`), and a text in which each opener is replaced by an escaped one resolves to itself
(`resolve_replace`).
-/

namespace ConfigGraph.Reference

theorem escape_cons {c : Char} {s : Text} (h : ∀ rest, c :: s ≠ '$' :: '{' :: rest) :
    escape (c :: s) = c :: escape s := by
  rw [escape]
  exact fun rest hc hs => h rest (by rw [hc, hs])

/-- A brace is in front of an escaped text only where it is in front of the text. -/
theorem escape_eq_brace {s rest : Text} (h : escape s = '{' :: rest) : ∃ rest', s = '{' :: rest' := by
  fun_cases escape s with
  | case1 t => rw [escape] at h; cases h
  | case2 c t hc =>
    rw [escape_cons fun r e => by cases e; exact hc r rfl rfl] at h
    cases h
    exact ⟨t, rfl⟩
  | case3 => cases h

/-- No escaped text starts with an opener. -/
theorem escape_ne_opener (s rest : Text) : escape s ≠ '$' :: '{' :: rest := by
  intro h
  fun_cases escape s with
  | case1 t => rw [escape] at h; cases h
  | case2 c t hc =>
    rw [escape_cons fun r e => by cases e; exact hc r rfl rfl] at h
    obtain ⟨rfl, ht⟩ := List.cons.inj h
    obtain ⟨t', rfl⟩ := escape_eq_brace ht
    exact hc t' rfl rfl
  | case3 => cases h

theorem opening?_escape (s : Text) (i : Nat) : opening? (escape s) i = none := by
  fun_induction escape s generalizing i with
  | case1 rest ih => exact ih _
  | case2 c rest hc ih =>
    rw [opening?]
    · exact ih _
    · exact fun r _ h => escape_ne_opener rest r h
    · intro r hd h
      obtain ⟨r', rfl⟩ := escape_eq_brace h
      exact hc r' hd rfl
  | case3 => rfl

theorem unescape_escape (s : Text) : unescape (escape s) = s := by
  fun_induction escape s with
  | case1 rest ih => rw [unescape, ih]
  | case2 c rest hc ih =>
    rw [unescape, ih]
    exact fun r _ h => escape_ne_opener rest r h
  | case3 => rfl

/-- A text without openers has nothing to escape. -/
theorem escape_of_noOpener {s : Text} (h : ¬ ['$', '{'] <:+: s) : escape s = s := by
  induction s with
  | nil => rfl
  | cons c s ih =>
    have hc : ∀ rest, c :: s ≠ '$' :: '{' :: rest := fun rest e =>
      h (e.symm ▸ (List.prefix_append ['$', '{'] rest).isInfix)
    rw [escape_cons hc, ih fun hi => h (hi.trans (List.suffix_cons c s).isInfix)]

theorem escape_eq_self {s : Text} (h : '{' ∉ s) : escape s = s :=
  escape_of_noOpener fun hi => h (hi.subset (by simp))

theorem escape_singleton (c : Char) : escape [c] = [c] :=
  escape_cons fun rest e => by cases e

/-- Escaping replaces each opener, as they are met from the left. -/
theorem escape_eq_replace (s : Text) :
    escape s = Text.replace ['$', '{'] ['$', '$', '{'] s := by
  fun_induction escape s with
  | case1 rest ih =>
    have hreplace := Text.replace_append (List.cons_ne_nil '$' ['{']) ['$', '$', '{'] rest
    rw [ih]
    exact hreplace.symm
  | case2 c rest hc ih =>
    have hopen : ¬ ['$', '{'] <+: c :: rest := by
      rintro ⟨tail, h⟩
      obtain ⟨rfl, hrest⟩ := List.cons.inj h
      exact hc tail rfl hrest.symm
    rw [Text.replace_cons hopen, ih]
  | case3 => rw [Text.replace_nil (List.cons_ne_nil _ _)]

theorem find?_escape (s : Text) : find? (escape s) = .ok none := by
  rw [find?, opening?_escape]

/-- A text without references stands for itself, but that its escapes are removed. -/
theorem expand_of_none {s : Text} (h : find? s = .ok none) (store : Store) (chain : List Text) :
    expand store chain s = .ok (unescape s) := by
  rw [expand_eq, first?_eq_none_iff.2 h]

/-- A key with a text without references stands for this text. -/
theorem tagValue_of_none {store : Store} {chain : List Text} {key raw : Text} (hk : key ≠ [])
    (hc : key ∉ chain) (h : store.get? key = some raw) (hraw : find? raw = .ok none)
    (default? : Option Text) : tagValue store chain ⟨key, default?⟩ = .ok (some (unescape raw)) := by
  rw [tagValue, if_neg (by simpa using hk), dif_neg hc]
  split
  · rename_i hg
    rw [h] at hg
    cases hg
    rw [← expand, expand_of_none hraw]
    rfl
  · rename_i hg
    rw [h] at hg
    cases hg

/-- A text in which each opener is replaced by an escaped one resolves to the text, in every store.
A text without openers resolves to itself. -/
theorem resolve_replace (store : Store) (s : Text) :
    resolve store (Text.replace ['$', '{'] ['$', '$', '{'] s) = .ok s ∧
      (¬ ['$', '{'] <:+: s → resolve store s = .ok s) := by
  have hescape : resolve store (escape s) = .ok s := by
    rw [resolve, expand_of_none (find?_escape s), unescape_escape]
  refine ⟨escape_eq_replace s ▸ hescape, fun h => ?_⟩
  rwa [escape_of_noOpener h] at hescape

/-- Dollar signs in front of an opener, a reference to what is stored, and an escape; and a text
without openers. -/
theorem resolve_replace_dollars :
    ¬ ['$', '{'] <:+: ['$', '}', '$'] ∧
      resolve (Store.empty.put ['a'] ['x']) ['$', '}', '$'] = .ok ['$', '}', '$'] ∧
      Text.replace ['$', '{'] ['$', '$', '{']
          ['$', '$', '$', '{', 'a', '}', '$', '$', '{', '}'] =
        ['$', '$', '$', '$', '{', 'a', '}', '$', '$', '$', '{', '}'] ∧
      resolve (Store.empty.put ['a'] ['x'])
          ['$', '$', '$', '$', '{', 'a', '}', '$', '$', '$', '{', '}'] =
        .ok ['$', '$', '$', '{', 'a', '}', '$', '$', '{', '}'] := by
  have hplain : ¬ ['$', '{'] <:+: ['$', '}', '$'] := fun h =>
    absurd (h.subset (List.mem_cons_of_mem _ List.mem_cons_self)) (by decide)
  have hdollars : Text.replace ['$', '{'] ['$', '$', '{']
      ['$', '$', '$', '{', 'a', '}', '$', '$', '{', '}'] =
        ['$', '$', '$', '$', '{', 'a', '}', '$', '$', '$', '{', '}'] := by
    rw [← escape_eq_replace]
    rfl
  refine ⟨hplain, (resolve_replace _ _).2 hplain, hdollars, ?_⟩
  rw [← hdollars]
  exact (resolve_replace _ _).1

end ConfigGraph.Reference
