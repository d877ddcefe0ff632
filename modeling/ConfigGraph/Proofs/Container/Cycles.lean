import ConfigGraph.Proofs.Container.States
import ConfigGraph.Proofs.Container.Walk

/-!
# Cycles

Refreshing beans that are made from single beans succeeds exactly where their graph has no cycle,
and then the beans are ready in postorder (`Builder.refresh_acyclic`).
-/

namespace ConfigGraph

open Relation (TransGen)

namespace Builder

variable {b : Builder}

/-- At the start no definition is in progress, and there are no instances. -/
theorem calm_nil : b.Calm [] where
  states j := by
    by_cases hj : j < b.definitions.length
    · simp [state?_nil hj]
    · have hnone : b.state? [] j = none := by
        rw [← Option.not_isSome_iff_eq_none, state?_isSome]
        exact hj
      simp [hnone]
  typed j d inst hd hinst := by
    cases (lawful_nil.state?_of_instance? hinst).symm.trans
      (state?_nil (List.getElem?_eq_some_iff.1 hd).1)

theorem assemble_walks (hplain : b.Plain) :
    (assemble b.context).Meets b.assembly [] (b.OrCycle fun _ h' =>
      Postorder b.children [] (List.range b.definitions.length) (b.reached h').ready) := by
  refine OrCycle.bind (wireEach_walks hplain _ (fun i hi => List.mem_range.1 hi) sound_nil calm_nil
    rfl) fun u h ⟨ha, hv⟩ => ?_
  have hlink : ∀ j, b.toLink? h j ≠ some true := by
    intro j
    rw [ha.toLink]
    show ((b.definitions.map Definition.slot)[j]?).map (·.toLink) ≠ _
    rw [List.getElem?_map]
    cases hd : b.definitions[j]? with
    | none => simp
    | some d => simp [Definition.slot, (hplain.beans d (List.mem_of_getElem? hd)).noLink]
  refine (linkEach_gives _ hlink).mono fun r h' hr => ?_
  obtain ⟨rfl, hready⟩ := hr
  have horder := hv.order
  rw [← hready] at horder
  exact horder

/-- Refreshing ends where the walk ends, or at a cycle. -/
theorem Plain.refresh_cases (hplain : b.Plain) :
    (∃ chain events, b.refresh = (.error (.circularDependency chain), events) ∧
      ∃ i, TransGen b.Depends i i) ∨
    ∃ c events, b.refresh = (.ok c, events) ∧
      Postorder b.children [] (List.range b.definitions.length) c.ready ∧
      (∀ i, ¬ TransGen b.Depends i i) ∧
      ∀ i < b.definitions.length, (progress i b.acts).count (.begins .constructor) = 1 ∧
        (progress i b.acts).count (.ends .constructor) = 1 := by
  have hwalks : b.OrCycle (fun _ h' => Postorder b.children [] (List.range b.definitions.length)
      (b.reached h').ready) ((assemble b.context).run b.assembly).1 b.acts := assemble_walks hplain
  rcases Builder.refresh_cases b with ⟨e, hrun, he⟩ | ⟨c, hrun, hc, -, hready, -, hran⟩
  · rw [hrun] at hwalks
    obtain ⟨⟨chain, rfl⟩, hcycle⟩ := hwalks
    exact .inl ⟨chain, _, he, hcycle⟩
  · rw [hrun] at hwalks
    refine .inr ⟨c, _, hc, hready ▸ hwalks, hwalks.acyclic fun i hi => List.mem_range.2 ?_,
      fun i hi => ?_⟩
    · by_contra hlen
      refine hi ?_
      rw [children, List.getElem?_eq_none (Nat.le_of_not_lt hlen)]
    · exact b.sound_acts.lawful.count_progress (hran i _ (List.getElem?_eq_getElem hi)).2
        (List.mem_append_left _ (List.mem_append_left _ (List.mem_cons_self ..)))

/-- The beans that are registered, in order. -/
def registered (store : Store) (beans : List Bean) : Builder :=
  beans.foldl register (start store)

theorem map_bean_register (b : Builder) (bean : Bean) :
    (b.register bean).definitions.map (·.bean) = b.definitions.map (·.bean) ++ [bean] := by
  unfold register
  split <;> simp

theorem map_bean_registered (store : Store) (beans : List Bean) :
    (registered store beans).definitions.map (·.bean) = beans := by
  induction beans using List.reverseRecOn with
  | nil => rfl
  | append_singleton beans bean ih =>
    rw [registered, List.foldl_append]
    exact (map_bean_register _ bean).trans (congrArg (· ++ [bean]) ih)

/-- Only objects have instances when they are registered, which are of their types. -/
theorem object_registered (store : Store) (beans : List Bean) :
    ∀ d ∈ (registered store beans).definitions, ∀ inst, d.object = some inst →
      d.bean.maker = .object ∧ inst.type = d.bean.profile.type := by
  induction beans using List.reverseRecOn with
  | nil => exact fun d hd => nomatch hd
  | append_singleton beans bean ih =>
    rw [registered, List.foldl_append]
    show ∀ d ∈ ((registered store beans).register bean).definitions, _
    intro d hd inst hinst
    unfold register at hd
    split at hd
    · rename_i hmaker
      rcases List.mem_append.1 hd with hd | hd
      · exact ih d hd inst hinst
      · obtain rfl := List.mem_singleton.1 hd
        cases hinst
        exact ⟨hmaker, rfl⟩
    · rcases List.mem_append.1 hd with hd | hd
      · exact ih d hd inst hinst
      · obtain rfl := List.mem_singleton.1 hd
        cases hinst

theorem plain_registered {store : Store} {beans : List Bean}
    (hplain : ∀ bean ∈ beans, (registered store beans).context.Plain bean) :
    (registered store beans).Plain where
  beans d hd := hplain d.bean (by
    rw [← map_bean_registered store beans]
    exact List.mem_map_of_mem hd)
  objects := object_registered store beans

/-- Refreshing beans that are made from single beans succeeds exactly where there is no cycle among
them. Otherwise it fails with a circular dependency. Where it succeeds, each bean is constructed
once, and the beans become ready in the depth-first postorder that the order of registration
gives. -/
theorem refresh_acyclic {store : Store} {beans : List Bean}
    (hplain : ∀ bean ∈ beans, (registered store beans).context.Plain bean) :
    ((∃ c events, (registered store beans).refresh = (.ok c, events)) ↔
      ∀ i, ¬ TransGen (registered store beans).Depends i i) ∧
    ((∃ i, TransGen (registered store beans).Depends i i) →
      ∃ chain events,
        (registered store beans).refresh = (.error (.circularDependency chain), events)) ∧
    ∀ c events, (registered store beans).refresh = (.ok c, events) →
      (∀ out, Postorder (registered store beans).children [] (List.range beans.length) out ↔
        out = c.ready) ∧
      ∀ i < beans.length,
        (progress i (registered store beans).acts).count (.begins .constructor) = 1 ∧
        (progress i (registered store beans).acts).count (.ends .constructor) = 1 := by
  have hlen : (registered store beans).definitions.length = beans.length := by
    rw [← List.length_map, map_bean_registered]
  rw [← hlen]
  have hcases := (plain_registered hplain).refresh_cases
  generalize registered store beans = b at hcases
  rcases hcases with ⟨chain, events, he, hcycle⟩ | ⟨c, events, hc, horder, hacyclic, hcount⟩
  · refine ⟨iff_of_false ?_ (not_forall_not.2 hcycle), fun _ => ⟨chain, events, he⟩, ?_⟩
    · rintro ⟨c, events', hc⟩
      cases he.symm.trans hc
    · intro c events' hc
      cases he.symm.trans hc
  · refine ⟨iff_of_true ⟨c, events, hc⟩ hacyclic, fun ⟨i, hi⟩ => absurd hi (hacyclic i), ?_⟩
    intro c' events' hc'
    cases hc.symm.trans hc'
    exact ⟨fun out => ⟨fun h => h.unique horder, fun h => h ▸ horder⟩, hcount⟩

/-- A bean whose constructor takes one bean of each of these types. -/
def needing (name : String) (types : List String) : Bean :=
  { Bean.lone name none [] with
    maker := .constructor (types.map fun type => .bean (.concrete type)) none }

theorem plain_needing {ctx : Context} {name : String} {types : List String}
    (htypes : ∀ type ∈ types, ∃ j, ctx.candidates (.concrete type) .inferred = [j]) :
    ctx.Plain (needing name types) where
  matched k p hp := by
    obtain ⟨type, htype, rfl⟩ := List.mem_map.1 (List.mem_of_getElem? hp)
    obtain ⟨j, hj⟩ := htypes type htype
    exact ⟨.concrete type, .inferred, j, rfl, hj⟩
  noSurplus := Nat.zero_le _
  noRefusal := rfl
  noInjector := rfl
  noLink := rfl
  noFailure := fun _ h => nomatch h

/-- The first bean needs both others, the second one the last. -/
def layered : List Bean :=
  [needing "app" ["store", "log"], needing "store" ["log"], needing "log" []]

/-- Two beans that need each other. -/
def looped : List Bean :=
  [needing "left" ["right"], needing "right" ["left"]]

theorem plain_layered : ∀ bean ∈ layered, (registered .empty layered).context.Plain bean := by
  have hstore : (registered .empty layered).context.candidates (.concrete "store") .inferred =
    [1] := by decide
  have hlog : (registered .empty layered).context.candidates (.concrete "log") .inferred =
    [2] := by decide
  generalize (registered .empty layered).context = ctx at hstore hlog ⊢
  simp only [layered, List.forall_mem_cons, List.not_mem_nil, false_implies, implies_true, and_true]
  exact ⟨plain_needing (by simp [hstore, hlog]), plain_needing (by simp [hlog]),
    plain_needing (by simp)⟩

theorem plain_looped : ∀ bean ∈ looped, (registered .empty looped).context.Plain bean := by
  have hleft : (registered .empty looped).context.candidates (.concrete "left") .inferred =
    [0] := by decide
  have hright : (registered .empty looped).context.candidates (.concrete "right") .inferred =
    [1] := by decide
  generalize (registered .empty looped).context = ctx at hleft hright ⊢
  simp only [looped, List.forall_mem_cons, List.not_mem_nil, false_implies, implies_true, and_true]
  exact ⟨plain_needing (by simp [hright]), plain_needing (by simp [hleft])⟩

theorem refresh_acyclic_layered :
    (∀ bean ∈ layered, (registered .empty layered).context.Plain bean) ∧
    (∀ i, ¬ TransGen (registered .empty layered).Depends i i) ∧
    Postorder (registered .empty layered).children [] (List.range 3) [2, 1, 0] ∧
    (∀ bean ∈ looped, (registered .empty looped).context.Plain bean) ∧
    ∃ chain events,
      (registered .empty looped).refresh = (.error (.circularDependency chain), events) := by
  have hcycle : TransGen (registered .empty looped).Depends 0 0 :=
    .tail (.single (b := 1) (by decide)) (by decide)
  obtain ⟨hiff, -, horder⟩ := refresh_acyclic plain_layered
  obtain ⟨-, hcircular, -⟩ := refresh_acyclic plain_looped
  exact ⟨plain_layered, hiff.1 ⟨_, _, rfl⟩, ((horder _ _ rfl).1 _).2 rfl, plain_looped,
    hcircular ⟨0, hcycle⟩⟩

end Builder

end ConfigGraph
