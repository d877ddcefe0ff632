import ConfigGraph.Proofs.Number.Decimal
import ConfigGraph.Proofs.Text
import ConfigGraph.Reference.Tag
import ConfigGraph.Store.Key

/-!
# Keys in tags

A key without anything that means something else in a tag stands in one as it is, alone
(`Key.Referable.parse_key`) or in front of a default (`Key.Referable.parse_default`).
-/

namespace ConfigGraph

namespace Key

/-- A key that a tag can name as it stands: there is no white space around it, and in it no
opener, no closing brace and no mark of a default. -/
structure Referable (k : Text) : Prop where
  ne_nil : k ≠ []
  trimmed : Text.trim k = k
  noOpener : ¬ ['$', '{'] <:+: k
  noBrace : '}' ∉ k
  noDefault : ¬ [':', '='] <:+: k

/-- A key with nothing in it that a tag reads in another way: neither references, nor defaults, nor
white space. -/
def Verbatim (k : Text) : Prop :=
  k ≠ [] ∧ ∀ c ∈ k, c ∉ ['$', '}', ':'] ∧ Text.isBlank c = false

theorem Verbatim.referable {k : Text} (hk : Verbatim k) : Referable k where
  ne_nil := hk.1
  trimmed := Text.trim_eq_self fun c hc => (hk.2 c hc).2
  noOpener h := (hk.2 _ (h.subset (List.mem_cons_self ..))).1 (by simp)
  noBrace h := (hk.2 _ h).1 (by simp)
  noDefault h := (hk.2 _ (h.subset (List.mem_cons_self ..))).1 (by simp)

end Key

namespace Reference

/-- A text without openers and closing braces does not change how many references are open. What
follows it must not complete an opener. -/
theorem closing?_append {k rest : Text} (ho : ¬ ['$', '{'] <:+: k) (hb : '}' ∉ k)
    (hrest : rest.head? ≠ some '{') (depth i : Nat) :
    closing? (k ++ rest) depth i = closing? rest depth (i + k.length) := by
  induction k generalizing i with
  | nil => rfl
  | cons c k ih =>
    have hc : c ≠ '}' := fun e => hb (e ▸ List.mem_cons_self)
    have hk : ¬ ['$', '{'] <:+: k := fun h => ho (h.trans (List.suffix_cons c k).isInfix)
    rw [List.cons_append, closing?, ih hk (fun h => hb (List.mem_cons_of_mem _ h)),
      List.length_cons]
    · congr 1; omega
    · rintro tail rfl htail
      cases k with
      | nil => exact hrest (by rw [show rest = '{' :: tail from htail]; rfl)
      | cons d k =>
        obtain ⟨rfl, -⟩ := List.cons.inj htail
        exact ho (List.prefix_append ['$', '{'] k).isInfix
    · exact hc

end Reference

/-- A text that is one balanced reference is read as what stands between its braces. -/
theorem Tag.parse_balanced {inner : Text}
    (h : Reference.find? ('$' :: '{' :: (inner ++ ['}'])) = .ok (some (0, inner.length + 2))) :
    parse ('$' :: '{' :: (inner ++ ['}'])) = .ok (ofInner inner) := by
  have hinner : inner? ('$' :: '{' :: (inner ++ ['}'])) = some inner := by
    simp only [inner?, List.getLast?_concat, if_true, List.dropLast_concat]
  have hlen : ('$' :: '{' :: (inner ++ ['}'])).length - 1 = inner.length + 2 := by simp
  simp only [parse, hinner, h, hlen, if_true]

namespace Key.Referable

open Reference

variable {k : Text} (hk : Referable k)

include hk

/-- An element of a key that a tag can name is another one. -/
theorem element (i : Nat) : Referable (Key.element k i) := by
  have hmem : ∀ c ∈ '[' :: Nat.toDigits 10 i ++ [']'], c = '[' ∨ Text.isDigit c = true ∨ c = ']' := by
    intro c hc
    simp only [List.cons_append, List.mem_cons, List.mem_append, List.not_mem_nil, or_false] at hc
    exact hc.imp_right (Or.imp_left Number.isDigit_of_mem_digits)
  have hnot : ∀ c, Text.isDigit c = false → c ≠ '[' → c ≠ ']' →
      c ∉ '[' :: Nat.toDigits 10 i ++ [']'] := by
    intro c hd ho hb hc
    rcases hmem c hc with h | h | h
    · exact ho h
    · rw [hd] at h; cases h
    · exact hb h
  have heq : Key.element k i = k ++ ('[' :: Nat.toDigits 10 i ++ [']']) := by
    simp only [Key.element, List.append_assoc, List.cons_append]
  rw [heq]
  refine ⟨List.append_ne_nil_of_left_ne_nil hk.ne_nil _, ?_, fun h => ?_, fun h => ?_, fun h => ?_⟩
  · refine Text.trim_append hk.trimmed hk.ne_nil fun c hc => ?_
    rcases hmem c hc with rfl | h | rfl
    · decide
    · exact Text.isBlank_of_isDigit h
    · decide
  · exact hk.noOpener (Text.pair_infix_of_append (hnot '{' rfl (by decide) (by decide)) h)
  · exact (List.mem_append.1 h).elim hk.noBrace (hnot '}' rfl (by decide) (by decide))
  · exact hk.noDefault (Text.pair_infix_of_append (hnot '=' rfl (by decide) (by decide)) h)

/-- The reference to a key is balanced. -/
theorem find?_key : find? (['$', '{'] ++ k ++ ['}']) = .ok (some (0, k.length + 2)) := by
  show find? ('$' :: '{' :: (k ++ ['}'])) = _
  have hopen : opening? ('$' :: '{' :: (k ++ ['}'])) 0 = some 0 := rfl
  have hclose : closing? (k ++ ['}']) 0 2 = some (2 + k.length) :=
    closing?_append hk.noOpener hk.noBrace (by simp) _ _
  simp only [find?, hopen, List.drop_succ_cons, List.drop_zero, Nat.zero_add, hclose,
    Nat.add_comm]

/-- A tag that only has a key is read as that key. -/
theorem parse_key : Tag.parse (['$', '{'] ++ k ++ ['}']) = .ok ⟨k, none⟩ := by
  have hof : Tag.ofInner k = ⟨k, none⟩ := by
    rw [Tag.ofInner, Text.cut?_eq_none hk.noDefault]
    exact congrArg (Tag.mk · none) hk.trimmed
  exact (Tag.parse_balanced hk.find?_key).trans (congrArg _ hof)

/-- A tag with a key and a default is read as these, provided that it is balanced. -/
theorem parse_default {d : Text} (hd : find? (['$', '{'] ++ k ++ [':', '='] ++ d ++ ['}']) =
      .ok (some (0, (['$', '{'] ++ k ++ [':', '='] ++ d ++ ['}']).length - 1))) :
    Tag.parse (['$', '{'] ++ k ++ [':', '='] ++ d ++ ['}']) = .ok ⟨k, some d⟩ := by
  have hof : Tag.ofInner (k ++ [':', '='] ++ d) = ⟨k, some d⟩ := by
    rw [Tag.ofInner, Text.cut?_append (by decide) hk.noDefault]
    exact congrArg (Tag.mk · (some d)) hk.trimmed
  have hlen : (['$', '{'] ++ k ++ [':', '='] ++ d ++ ['}']).length - 1 =
      (k ++ [':', '='] ++ d).length + 2 := by
    simp only [List.length_append, List.length_cons, List.length_nil]
    omega
  rw [hlen] at hd
  exact (Tag.parse_balanced hd).trans (congrArg _ hof)

end Key.Referable

end ConfigGraph
