import ConfigGraph.Proofs.Reference.Expansion
import ConfigGraph.Proofs.Store.Leaf
import Mathlib.Data.List.Dedup
import Mathlib.Data.List.Perm.Subperm

/-!
# Resolving ends

While a text is resolved (`Active`), the keys through which the expansions in progress were entered
are different from each other (`Active.nodup`), and each of them is the key of a reference in the
text or in a stored text (`Active.subset`). So resolving comes to an end, and nests no deeper than
there are such keys (`resolve_terminates`).
-/

namespace ConfigGraph.Reference

set_option linter.unusedVariables false in
/-- All references in a text, those inside of defaults included. -/
def mentions (s : Text) : List Tag :=
  match hs : first? s with
  | .ok (some (_, tag, rest)) =>
    (tag :: match hd : tag.default? with
      | some d => mentions d
      | none => []) ++ mentions rest
  | _ => []
termination_by s.length
decreasing_by
  · have hsize := (length_of_first? hs).1
    rwa [Tag.size, hd, Option.getD_some] at hsize
  · exact (length_of_first? hs).2

/-- All references in stored texts. -/
def stored (store : Store) : List Tag :=
  store.entries.flatMap fun e => mentions e.2

/-- The different keys of all references in a text and in stored texts, but for the empty key. -/
def mentioned (store : Store) (s : Text) : List Text :=
  (((mentions s ++ stored store).map Tag.key).filter (· ≠ [])).dedup

namespace Call

/-- The keys that are being expanded around a call. -/
def chain : Call → List Text
  | text chain _ | reference chain _ => chain

/-- The key through which a call enters an expansion, unless that is empty. -/
def entered : Call → List Text
  | text .. => []
  | reference _ tag => enter [] tag.key

/-- The references in what is to be expanded. -/
def inSight : Call → List Tag
  | text _ s => mentions s
  | reference _ tag => tag :: (tag.default?.map mentions).getD []

end Call

/-- While `s` is resolved, a call is in progress. The keys are those through which the expansions
around it were entered, the outermost first. -/
inductive Active (store : Store) (s : Text) : List Text → Call → Prop where
  | start : Active store s [] (.text [] s)
  | call {keys : List Text} {c c' : Call} (hc : Active store s keys c) (h : Calls store c c') :
      Active store s (keys ++ c.entered) c'

variable {store : Store} {s before rest : Text} {tag : Tag} {keys : List Text} {c c' : Call}

theorem mentions_of_first? (hs : first? s = .ok (some (before, tag, rest))) :
    mentions s = (Call.reference [] tag).inSight ++ mentions rest := by
  rw [mentions]
  split
  · rename_i hs'
    cases hs.symm.trans hs'
    rw [Call.inSight]
    split
    · rename_i hd
      rw [hd]
      rfl
    · rename_i hd
      rw [hd]
      rfl
  · rename_i hne
    exact absurd hs (hne before tag rest)

/-- A call only has references in sight that its caller has in sight, or that are stored. -/
theorem Calls.inSight_subset (h : Calls store c c') : c'.inSight ⊆ c.inSight ++ stored store := by
  cases h with
  | reference hs =>
    rw [Call.inSight.eq_1, mentions_of_first? hs, List.append_assoc]
    exact List.subset_append_left _ _
  | rest hs =>
    rw [Call.inSight.eq_1, Call.inSight.eq_1, mentions_of_first? hs, List.append_assoc]
    exact List.subset_append_of_subset_right _ (List.subset_append_left _ _)
  | @content chain tag t hc ht =>
    rcases content?_eq_some ht with ⟨-, hget⟩ | hd
    · refine List.subset_append_of_subset_right _ fun x hx => ?_
      exact List.mem_flatMap.2 ⟨_, Store.mem_entries_iff.2 hget, hx⟩
    · refine List.subset_append_of_subset_left _ fun x hx => List.mem_cons_of_mem _ ?_
      rw [hd]
      exact hx

/-- The chain of a call is that of its caller with the key that this enters. -/
theorem Calls.chain_eq (h : Calls store c c') : c'.chain = c.chain ++ c.entered := by
  cases h with
  | reference _ | rest _ => exact (List.append_nil _).symm
  | @content chain tag t hc ht => exact enter_eq_append chain tag.key

namespace Active

theorem chain_eq (h : Active store s keys c) : c.chain = keys := by
  induction h with
  | start => rfl
  | call _ hcalls ih => rw [hcalls.chain_eq, ih]

theorem inSight_subset (h : Active store s keys c) : c.inSight ⊆ mentions s ++ stored store := by
  induction h with
  | start => exact List.subset_append_left _ _
  | call _ hcalls ih =>
    exact List.Subset.trans hcalls.inSight_subset
      (List.append_subset.2 ⟨ih, List.subset_append_right _ _⟩)

/-- No key is entered that is being expanded already. -/
theorem nodup (h : Active store s keys c) : keys.Nodup := by
  induction h with
  | start => exact List.nodup_nil
  | @call keys c c' hc hcalls ih =>
    cases hcalls with
    | reference _ | rest _ => rwa [Call.entered, List.append_nil]
    | @content chain tag t hnot _ =>
      obtain rfl : chain = keys := hc.chain_eq
      show (chain ++ enter [] tag.key).Nodup
      unfold enter
      split
      · rwa [List.append_nil]
      · rename_i hkey
        exact List.nodup_append.2 ⟨ih, by simp, fun k hk k' hk' e =>
          hnot ⟨hkey, List.mem_singleton.1 hk' ▸ e ▸ hk⟩⟩

/-- Every key that is entered is the key of a reference in the text or in a stored text. -/
theorem subset (h : Active store s keys c) : keys ⊆ mentioned store s := by
  induction h with
  | start => exact List.nil_subset _
  | @call keys c c' hc _ ih =>
    refine List.append_subset.2 ⟨ih, fun k hk => ?_⟩
    cases c with
    | text chain t => cases hk
    | reference chain tag =>
      rw [Call.entered, enter] at hk
      split at hk
      · cases hk
      · rename_i hkey
        obtain rfl := List.mem_singleton.1 hk
        have hmem := hc.inSight_subset (List.mem_cons_self ..)
        simp only [mentioned, List.mem_dedup, List.mem_filter, List.mem_map, decide_eq_true_eq]
        exact ⟨⟨tag, hmem, rfl⟩, hkey⟩

end Active

/-- Resolving comes to an end. What comes of expanding a text or a reference is determined by what
comes of those that it calls for, and this recursion is well founded, whatever is stored. While a
text is resolved the keys being expanded are different from each other, and there are no more of
them than there are keys of references in the text and in stored texts. -/
theorem resolve_terminates (store : Store) :
    WellFounded (fun c' c => Calls store c c') ∧
    (∀ (c : Call) (f g : Call → Except ConfigError (Option Text)),
      (∀ c', Calls store c c' → f c' = g c') → c.body store f = c.body store g) ∧
    (∀ c : Call, c.outcome store = c.body store (Call.outcome store)) ∧
    ∀ s keys c, Active store s keys c → c.chain = keys ∧ keys.Nodup ∧
      keys ⊆ mentioned store s ∧ keys.length ≤ (mentioned store s).length :=
  ⟨wellFounded_calls store, fun _ _ _ => Call.body_congr, Call.outcome_eq_body store,
    fun _ _ _ h => ⟨h.chain_eq, h.nodup, h.subset, (h.nodup.subperm h.subset).length_le⟩⟩

end ConfigGraph.Reference
