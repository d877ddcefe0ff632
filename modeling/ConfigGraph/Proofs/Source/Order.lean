import ConfigGraph.Proofs.Store.Confined
import ConfigGraph.Source.Layers

/-!
# When the order does not matter

Trees that are set under keys of which neither lies below the other can be set in either order
(`set_comm`). So stores that are made of such trees, or of such environment variables, do not depend on
the order in which these are listed (`order_irrelevant`).
-/

namespace ConfigGraph

/-- Steps each two of which can change places can be made in any order. -/
theorem foldl_perm {α β : Type} {step : β → α → β} {l l' : List α} (hp : l.Perm l')
    (h : l.Pairwise fun a b => ∀ s, step (step s a) b = step (step s b) a) (s : β) :
    l.foldl step s = l'.foldl step s := by
  refine hp.foldl_eq' (h.forall_of_forall_of_flip (fun _ _ _ => rfl) ?_) s
  exact h.imp fun hab s => (hab s).symm

/-- Two keys as they may be given, with or without the root mark: neither is the root, and neither is
the other one or lies below it. -/
def Key.Incomparable (a b : Text) : Prop :=
  normalize a ≠ [] ∧ normalize b ≠ [] ∧ Apart (normalize a) (normalize b)

instance (a b : Text) : Decidable (Key.Incomparable a b) :=
  inferInstanceAs (Decidable (_ ∧ _ ∧ _))

namespace Store

theorem set_comm {k₁ k₂ : Text} (h : Key.Incomparable k₁ k₂) (s : Store) (v₁ v₂ : Value) :
    (s.set k₁ v₁).set k₂ v₂ = (s.set k₂ v₂).set k₁ v₁ :=
  (confined_write v₁ _).comm (confined_write v₂ _) h.1 h.2.1 h.2.2 s

theorem ofList_perm {es es' : List (Text × Value)} (h : (es.map (·.1)).Pairwise Key.Incomparable)
    (hp : es.Perm es') : ofList es = ofList es' :=
  foldl_perm hp ((List.pairwise_map.1 h).imp fun hab s => set_comm hab s _ _) empty

end Store

theorem Variables.load_perm (which : Variables) {env env' : List (Text × Text)}
    (h : (env.filterMap fun e => which.key? e.1).Pairwise Key.Incomparable) (hp : env.Perm env')
    (s : Store) : which.load env s = which.load env' s := by
  refine foldl_perm hp ((List.pairwise_filterMap.1 h).imp fun {a b} hab s => ?_) s
  cases ha : which.key? a.1 with
  | none => simp only [ha]
  | some k =>
    cases hb : which.key? b.1 with
    | none => simp only [ha, hb]
    | some k' =>
      simp only [ha, hb]
      exact Store.set_comm (hab k ha k' hb) s _ _

/-- Trees with any names in them, set under keys that are incomparable, give the same in either order,
whatever was stored before. So a store made of trees under pairwise incomparable keys does not depend
on their order, nor does what is made of a store by environment variables of which those that are read
have pairwise incomparable keys. -/
theorem order_irrelevant :
    (∀ (s : Store) (k₁ k₂ : Text) (v₁ v₂ : Value), Key.Incomparable k₁ k₂ →
      (s.set k₁ v₁).set k₂ v₂ = (s.set k₂ v₂).set k₁ v₁) ∧
    (∀ es es' : List (Text × Value), (es.map (·.1)).Pairwise Key.Incomparable → es.Perm es' →
      Store.ofList es = Store.ofList es') ∧
    ∀ (which : Variables) (env env' : List (Text × Text)) (s : Store),
      (env.filterMap fun e => which.key? e.1).Pairwise Key.Incomparable → env.Perm env' →
      which.load env s = which.load env' s :=
  ⟨fun s _ _ v₁ v₂ h => Store.set_comm h s v₁ v₂, fun _ _ h hp => Store.ofList_perm h hp,
    fun which _ _ s h hp => which.load_perm h hp s⟩

/-- A map in which names collide, a sequence and a null, under keys that start alike. -/
def alikeEntries : List (Text × Value) :=
  [(['a'], .map [([], .null), (['b', '.', 'c'], .int 1)]), (['$', '.', 'a', 'b'], .seq [.bool true]),
    (['a', '-'], .null)]

/-- Variables with a lead, two of which are read. -/
def leadVariables : List (Text × Text) :=
  [(['A', '_', '1'], ['x']), (['B', '_', '1'], ['y']), (['A', '_', '2', '_', '1'], ['z'])]

theorem order_irrelevant_alikeEntries :
    Key.Incomparable ['a'] ['$', '.', 'a', 'b'] ∧
      (Store.empty.set ['a'] (.seq [.null])).set ['$', '.', 'a', 'b'] .null =
        (Store.empty.set ['$', '.', 'a', 'b'] .null).set ['a'] (.seq [.null]) ∧
    (alikeEntries.map (·.1)).Pairwise Key.Incomparable ∧
      alikeEntries.Perm alikeEntries.reverse ∧
      Store.ofList alikeEntries = Store.ofList alikeEntries.reverse ∧
    ∃ which : Variables, leadVariables.filterMap (fun e => which.key? e.1) = [['1'], ['2', '.', '1']] ∧
      which.load leadVariables .empty = which.load leadVariables.reverse .empty := by
  have hkeys : Key.Incomparable ['a'] ['$', '.', 'a', 'b'] := by decide
  have hpairs : (alikeEntries.map (·.1)).Pairwise Key.Incomparable := by decide
  let which : Variables := ⟨['A'], ['_'], List.cons_ne_nil _ _⟩
  have hread : leadVariables.filterMap (fun e => which.key? e.1) = [['1'], ['2', '.', '1']] := by
    cbv
  obtain ⟨hset, hlist, hload⟩ := order_irrelevant
  exact ⟨hkeys, hset _ _ _ _ _ hkeys, hpairs, (List.reverse_perm _).symm,
    hlist _ _ hpairs (List.reverse_perm _).symm, which, hread,
    hload which _ _ _ (hread ▸ by decide) (List.reverse_perm _).symm⟩

end ConfigGraph
