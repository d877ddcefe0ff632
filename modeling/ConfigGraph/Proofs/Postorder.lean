import Mathlib.Data.List.Basic
import Mathlib.Logic.Relation

/-!
# Depth-first postorder

The order in which a depth-first walk is done with the nodes of a directed graph (`Postorder`): each
node after its children, the children in their order, and no node again that is done. A walk comes
to an end only on what has no cycles (`Postorder.acyclic`).
-/

namespace ConfigGraph

variable {α : Type} {children : α → List α}

/-- A walk that is done with the nodes `done` comes to the nodes of a list one after the other; then
it is done with those of the last list, in this order. -/
inductive Postorder (children : α → List α) : List α → List α → List α → Prop where
  | nil {done} : Postorder children done [] done
  | skip {i done rest out} : i ∈ done → Postorder children done rest out →
      Postorder children done (i :: rest) out
  | visit {i done inner rest out} : i ∉ done → Postorder children done (children i) inner →
      Postorder children (inner ++ [i]) rest out → Postorder children done (i :: rest) out

/-- The children of a node stand before it. -/
def ChildrenFirst (children : α → List α) (out : List α) : Prop :=
  ∀ k i, out[k]? = some i → ∀ j ∈ children i, j ∈ out.take k

namespace Postorder

variable {done mid out is js : List α} {i : α}

theorem append (h : Postorder children done is mid) (h' : Postorder children mid js out) :
    Postorder children done (is ++ js) out := by
  induction h with
  | nil => exact h'
  | skip hi _ ih => exact .skip hi (ih h')
  | visit hi hc _ _ ih => exact .visit hi hc (ih h')

/-- There is at most one order. -/
theorem unique {out' : List α} (h : Postorder children done is out)
    (h' : Postorder children done is out') : out = out' := by
  induction h generalizing out' with
  | nil =>
    cases h'
    rfl
  | skip hi _ ih =>
    cases h' with
    | skip _ h' => exact ih h'
    | visit hi' => exact absurd hi hi'
  | visit hi _ _ ihc ih =>
    cases h' with
    | skip hi' => exact absurd hi' hi
    | visit _ hc' h' =>
      obtain rfl := ihc hc'
      exact ih h'

theorem done_prefix (h : Postorder children done is out) : done <+: out := by
  induction h with
  | nil => exact List.prefix_rfl
  | skip _ _ ih => exact ih
  | visit _ _ _ ihc ih => exact (ihc.trans (List.prefix_append _ _)).trans ih

/-- The walk is done with the nodes to which it came. -/
theorem subset (h : Postorder children done is out) : is ⊆ out := by
  induction h with
  | nil => exact List.nil_subset _
  | skip hi h ih => exact List.cons_subset.2 ⟨h.done_prefix.subset hi, ih⟩
  | visit _ _ h _ ih => exact List.cons_subset.2 ⟨h.done_prefix.subset (by simp), ih⟩

theorem childrenFirst (h : Postorder children done is out) (hdone : ChildrenFirst children done) :
    ChildrenFirst children out := by
  induction h with
  | nil => exact hdone
  | skip _ _ ih => exact ih hdone
  | @visit i done inner rest out _ hc _ ihc ih =>
    refine ih fun k j hk c hcj => ?_
    rcases Nat.lt_trichotomy k inner.length with hlt | rfl | hgt
    · rw [List.getElem?_append_left hlt] at hk
      rw [List.take_append_of_le_length (Nat.le_of_lt hlt)]
      exact ihc hdone k j hk c hcj
    · rw [List.getElem?_concat_length] at hk
      cases hk
      rw [List.take_left]
      exact hc.subset hcj
    · rw [List.getElem?_eq_none (by rw [List.length_append]; exact hgt)] at hk
      cases hk

/-- Where a walk comes to an end that came to all nodes with children, there are no cycles. -/
theorem acyclic [DecidableEq α] (h : Postorder children [] is out)
    (hall : ∀ i, children i ≠ [] → i ∈ is) (i : α) :
    ¬ Relation.TransGen (fun i j => j ∈ children i) i i := by
  have hfirst : ChildrenFirst children out := h.childrenFirst fun k i hk => nomatch hk
  have hedge : ∀ i j, j ∈ children i → out.idxOf i > out.idxOf j := by
    intro i j hj
    have hi : i ∈ out := h.subset (hall i (List.ne_nil_of_mem hj))
    have hmem : j ∈ out.take (out.idxOf i) := hfirst _ i (List.getElem?_idxOf hi) j hj
    exact (List.mem_take_iff_idxOf_lt (List.mem_of_mem_take hmem)).1 hmem
  intro hcycle
  have hlt : Relation.TransGen (· > ·) (out.idxOf i) (out.idxOf i) :=
    Relation.TransGen.lift out.idxOf hedge i i hcycle
  rw [Relation.transGen_eq_self] at hlt
  exact Nat.lt_irrefl _ hlt

end Postorder

end ConfigGraph
