import ConfigGraph.Proofs.Reference.Append
import ConfigGraph.Proofs.Reference.Balance
import ConfigGraph.Proofs.Reference.Termination
import ConfigGraph.Proofs.Store.Edit
import Mathlib.Logic.Relation

/-!
# Why resolving fails

The slice of a reference is an opener, a balanced text and a closing brace, so that it is a tag
(`parse_slice`). What else can go wrong while a text is resolved goes wrong in one call (`Fault`), and
the error of a call is that of a call which is made on its behalf (`Call.exists_fault`). Where a
reference is not found, nothing is stored for its key (`Fault.truthful`).
-/

namespace ConfigGraph.Reference

open Relation (ReflTransGen)

/-- What goes wrong in a call itself: a reference in its text is not closed, its key is being expanded
already, or it has neither a stored text nor a default. -/
inductive Fault (store : Store) : Call → ConfigError → Prop where
  | unclosed {chain : List Text} {s : Text} (h : find? s = .error .unclosedReference) :
      Fault store (.text chain s) .unclosedReference
  | cycle {chain : List Text} {tag : Tag} (h : tag.Closes chain) :
      Fault store (.reference chain tag) (.referenceCycle (chain ++ [tag.key]))
  | notFound {chain : List Text} {tag : Tag} (h : tag.content? store = none) :
      Fault store (.reference chain tag) (.referenceNotFound tag.key)

variable {store : Store} {s : Text} {chain keys : List Text} {c c' : Call} {e : ConfigError}
  {a b i : Nat}

/-! ## Slices -/

/-- At the position that is found there is an opener. -/
theorem drop_of_opening? (h : opening? s i = some a) :
    s.drop (a - i) = '$' :: '{' :: s.drop (a - i + 2) := by
  fun_induction opening? s i with
  | case1 rest i ih =>
    have hle := (opening?_lt h).1
    rw [show a - i = a - (i + 3) + 3 by omega]
    exact ih h
  | case2 rest i =>
    cases h
    rw [Nat.sub_self]
    rfl
  | case3 c rest i _ _ ih =>
    have hle := (opening?_lt h).1
    rw [show a - i = a - (i + 1) + 1 by omega]
    exact ih h
  | case4 => cases h

/-- A slice is an opener, a balanced text and a closing brace. -/
theorem slice_eq (h : find? s = .ok (some (a, b))) :
    ∃ inner, slice s a b = ['$', '{'] ++ inner ++ ['}'] ∧ Balanced inner := by
  obtain ⟨hopen, hclose⟩ := find?_eq_some_iff.1 h
  obtain ⟨inner, rest, hinner, rfl, hbalanced⟩ := closing?_eq_some_iff.1 hclose
  have hdrop : s.drop a = (['$', '{'] ++ inner ++ ['}']) ++ rest := by
    have := drop_of_opening? hopen
    rw [Nat.sub_zero, hinner] at this
    simpa using this
  refine ⟨inner, ?_, hbalanced⟩
  have hlen : a + 2 + inner.length + 1 - a = (['$', '{'] ++ inner ++ ['}']).length := by
    simp only [List.length_append, List.length_cons, List.length_nil]
    omega
  rw [slice, List.drop_take, hdrop, hlen, List.take_left]

/-- Every slice of a reference is read as a tag. -/
theorem parse_slice (h : find? s = .ok (some (a, b))) : ∃ tag, Tag.parse (slice s a b) = .ok tag := by
  obtain ⟨inner, hslice, hbalanced⟩ := slice_eq h
  exact ⟨_, Tag.parse_eq_ok_iff.2 ⟨inner, hslice, hbalanced, Tag.names_ofInner inner⟩⟩

theorem find?_eq_error (h : find? s = .error e) : e = .unclosedReference := by
  unfold find? at h
  split at h
  · cases h
  · split at h <;> cases h
    rfl

/-- A text that is no tag is not closed, or invalid. -/
theorem parse_eq_error (h : Tag.parse s = .error e) : e = .unclosedReference ∨ e = .invalidTag s := by
  unfold Tag.parse at h
  split at h
  · cases h
    exact .inr rfl
  · split at h
    · rename_i hfind
      cases h
      exact .inl (find?_eq_error hfind)
    · split at h <;> cases h
      exact .inr rfl

/-- A text is taken apart unless a reference in it is not closed. -/
theorem first?_eq_error (h : first? s = .error e) :
    find? s = .error .unclosedReference ∧ e = .unclosedReference := by
  unfold first? at h
  split at h
  · rename_i hfind
    cases h
    obtain rfl := find?_eq_error hfind
    exact ⟨hfind, rfl⟩
  · cases h
  · rename_i hfind
    obtain ⟨tag, htag⟩ := parse_slice hfind
    rw [htag] at h
    cases h

/-! ## Errors of calls -/

/-- A reference comes to nothing exactly if it has no content. -/
theorem tagValue_eq_none_iff {tag : Tag} :
    tagValue store chain tag = .ok none ↔ ¬ tag.Closes chain ∧ tag.content? store = none := by
  rw [tagValue_eq]
  split
  · rename_i hc
    simp [hc]
  · rename_i hc
    split
    · rename_i ht
      simp [hc, ht]
    · rename_i t ht
      cases expand store (enter chain tag.key) t <;> simp [ht, Except.map]

/-- Where a call fails, one that is made on its behalf is at fault. -/
theorem Call.exists_fault (h : c.outcome store = .error e) :
    ∃ c', ReflTransGen (Calls store) c c' ∧ Fault store c' e := by
  -- what a call gives is that of its own calls, and it makes none without end
  induction c using (wellFounded_calls store).induction with | _ c ih => ?_
  have hinside : ∀ c', Calls store c c' → c'.outcome store = .error e →
      ∃ c'', ReflTransGen (Calls store) c c'' ∧ Fault store c'' e := by
    intro c' hcalls h
    obtain ⟨c'', hmade, hfault⟩ := ih c' hcalls h
    exact ⟨c'', .head hcalls hmade, hfault⟩
  rw [Call.outcome_eq_body] at h
  cases c with
  | text chain t =>
    simp only [Call.body] at h
    split at h
    · rename_i hs
      cases h
      obtain ⟨hfind, rfl⟩ := first?_eq_error hs
      exact ⟨_, .refl, .unclosed hfind⟩
    · cases h
    · rename_i before tag rest hs
      split at h
      · rename_i hvalue
        cases h
        exact hinside _ (.reference hs) hvalue
      · rename_i hvalue
        cases h
        exact ⟨_, .single (.reference hs), .notFound (tagValue_eq_none_iff.1 hvalue).2⟩
      · refine hinside _ (.rest hs) ?_
        cases hrest : (Call.text chain rest).outcome store with
        | error e' =>
          rw [hrest] at h
          cases h
          rfl
        | ok tail =>
          rw [hrest] at h
          cases h
  | reference chain tag =>
    simp only [Call.body] at h
    split at h
    · rename_i hc
      cases h
      exact ⟨_, .refl, .cycle hc⟩
    · rename_i hc
      split at h
      · cases h
      · rename_i t ht
        exact hinside _ (.content hc ht) h

/-- What is called for on behalf of a call in progress is in progress. -/
theorem Active.of_calls (hactive : Active store s keys c) (h : ReflTransGen (Calls store) c c') :
    ∃ keys', Active store s keys' c' := by
  induction h with
  | refl => exact ⟨keys, hactive⟩
  | tail _ hcalls ih =>
    obtain ⟨keys', hactive'⟩ := ih
    exact ⟨_, hactive'.call hcalls⟩

/-- Nothing is stored for the root key. -/
theorem get?_eq_none_of_nil (hs : store.Leafy) : store.get? [] = none :=
  Option.eq_none_iff_forall_ne_some.2 fun _ h =>
    hs.ne_nil [] (Store.mem_keys_iff.2 ⟨_, h⟩) rfl

/-- What is at fault is a brace that is missing, a cycle, or a key for which nothing is stored. -/
theorem Fault.truthful (hs : store.Leafy) (h : Fault store c e) :
    e = .unclosedReference ∨ (∃ cycle, e = .referenceCycle cycle) ∨
      ∃ key, e = .referenceNotFound key ∧ store.get? key = none := by
  cases h with
  | unclosed _ => exact .inl rfl
  | cycle _ => exact .inr (.inl ⟨_, rfl⟩)
  | @notFound chain tag ht =>
    refine .inr (.inr ⟨tag.key, rfl, ?_⟩)
    unfold Tag.content? at ht
    split at ht
    · rename_i hkey
      rw [hkey]
      exact get?_eq_none_of_nil hs
    · exact (Option.or_eq_none_iff.1 ht).1

/-- The errors of resolving are true. Every slice that is taken for a reference is one. So, whatever
edits have made the store, resolving fails only at a reference that is not closed, at a cycle, or at a
reference to a key for which nothing is stored. This holds of each text and each reference that is
come to on the way, at any depth of stored texts and defaults, and one of these is at fault. -/
theorem resolve_error_truthful (hs : store.Reachable) :
    (∀ t a b, find? t = .ok (some (a, b)) → ∃ tag, Tag.parse (slice t a b) = .ok tag) ∧
    (∀ t e, resolve store t = .error e →
      e = .unclosedReference ∨ (∃ cycle, e = .referenceCycle cycle) ∨
        ∃ key, e = .referenceNotFound key ∧ store.get? key = none) ∧
    ∀ t keys c e, Active store t keys c → c.outcome store = .error e →
      (e = .unclosedReference ∨ (∃ cycle, e = .referenceCycle cycle) ∨
        ∃ key, e = .referenceNotFound key ∧ store.get? key = none) ∧
      ∃ keys' c', Active store t keys' c' ∧ Fault store c' e := by
  have hactive : ∀ t keys c e, Active store t keys c → c.outcome store = .error e →
      (e = .unclosedReference ∨ (∃ cycle, e = .referenceCycle cycle) ∨
        ∃ key, e = .referenceNotFound key ∧ store.get? key = none) ∧
      ∃ keys' c', Active store t keys' c' ∧ Fault store c' e := by
    intro t keys c e hactive h
    obtain ⟨c', hmade, hfault⟩ := Call.exists_fault h
    obtain ⟨keys', hactive'⟩ := hactive.of_calls hmade
    exact ⟨hfault.truthful hs.leafy, keys', c', hactive', hfault⟩
  refine ⟨fun t a b => parse_slice, fun t e h => ?_, hactive⟩
  refine (hactive t [] (.text [] t) e .start ?_).1
  rw [Call.outcome, show expand store [] t = .error e from h]
  rfl

/-- A stored text whose reference has a default with a reference to nothing. -/
def dangling : List Edit :=
  [.set ['a'] (.text ['$', '{', 'b', ':', '=', '$', '{', '}', '}'])]

theorem resolve_error_truthful_dangling :
    resolve (Edit.runAll Store.empty dangling) ['$', '{', 'a', '}'] = .error (.referenceNotFound []) ∧
      (Edit.runAll Store.empty dangling).get? [] = none := by
  have h : resolve (Edit.runAll Store.empty dangling) ['$', '{', 'a', '}'] =
      .error (.referenceNotFound []) := by cbv
  refine ⟨h, ?_⟩
  rcases (resolve_error_truthful ⟨dangling, rfl⟩).2.1 _ _ h with h | ⟨_, h⟩ | ⟨key, h, hget⟩
  · cases h
  · cases h
  · cases h
    exact hget

end ConfigGraph.Reference
