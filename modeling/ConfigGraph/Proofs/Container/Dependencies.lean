import ConfigGraph.Container.Session
import ConfigGraph.Proofs.Container.States
import Mathlib.Data.List.Nodup

/-!
# Dependencies

A bean that is given the instance of another one while it is wired depends on it. The other one is
ready by then, and so it precedes the first in the order of readiness; destroy callbacks run in the
opposite order (`Builder.destroyOrder`), when refreshing fails and when the container is closed.
`Builder.dependencies_first` says both.
-/

namespace ConfigGraph

namespace Container

variable {c : Container}

/-- A container after some steps. -/
def after (c : Container) (steps : List Step) : Container :=
  steps.foldl (fun c step => (c.step step).2.2) c

/-- Only closing changes what there is to destroy. -/
theorem destroyable_step (c : Container) (step : Step) :
    (c.step step).2.2.destroyable = c.destroyable ∨ (c.step step).2.2.destroyable = [] := by
  cases step with
  | close => exact .inr rfl
  | _ => exact .inl rfl

theorem destroyable_after (c : Container) (steps : List Step) :
    (c.after steps).destroyable = c.destroyable ∨ (c.after steps).destroyable = [] := by
  induction steps generalizing c with
  | nil => exact .inl rfl
  | cons step steps ih =>
    rcases ih (c.step step).2.2 with h | h
    · rcases c.destroyable_step step with h' | h'
      · exact .inl (h.trans h')
      · exact .inr (h.trans h')
    · exact .inr h

end Container

namespace Builder

variable {b : Builder} {h : List Act} {i x y : Nat}

/-- The definitions whose destroy callbacks are run after the acts of a history, in this order. -/
def destroyOrder (b : Builder) (h : List Act) : List Nat :=
  ((b.reached h).ready.filter fun i => (b.definitions[i]?).any (·.bean.destroys)).reverse

/-- What running the destroy callback of a ready definition brings about. -/
def destruction? (b : Builder) (h : List Act) (i : Nat) : Option Event :=
  ((b.reached h).instance? i).map fun inst => .destroyed inst.handle

theorem Lawful.nodup_destroyOrder (hl : b.Lawful h) : (b.destroyOrder h).Nodup :=
  List.nodup_reverse.2 (hl.nodup_ready.filter _)

/-- Destroying all instances runs the destroy callbacks of the ready definitions, each once, the
last that became ready first. -/
theorem Lawful.destroyAll_destroyable (hl : b.Lawful h) :
    (destroyAll ((b.reached h).destroyable b.context)).map some =
      (b.destroyOrder h).map (b.destruction? h) := by
  have hready : ∀ i ∈ (b.reached h).ready, ((b.reached h).instance? i).isSome :=
    fun i hi => hl.isSome_instance? ((hl.mem_ready_iff i).1 hi)
  unfold destroyAll Assembly.destroyable destroyOrder
  rw [List.map_reverse, List.map_reverse, List.map_reverse]
  congr 1
  generalize (b.reached h).ready = is at hready
  induction is with
  | nil => rfl
  | cons i is ih =>
    obtain ⟨hi, his⟩ := List.forall_mem_cons.1 hready
    obtain ⟨inst, hinst⟩ := Option.isSome_iff_exists.1 hi
    rw [List.filter_cons, List.filterMap_cons]
    show _ = List.map _ (if (b.definitions[i]?).any _ = true then _ else _)
    by_cases hd : (b.definitions[i]?).any (·.bean.destroys) = true
    · rw [if_pos hd]
      simp only [Builder.context, hd, if_true, hinst, List.map_cons, destruction?, Option.map_some]
      exact congrArg _ (ih his)
    · rw [if_neg hd]
      simp only [Builder.context, hd]
      exact ih his

/-- What becomes ready while another definition is being wired precedes that in the order of
readiness, and follows it when both are destroyed. -/
theorem Lawful.destroyed_before {before after : List Act} (hl : b.Lawful (before ++ after))
    (hy : b.state? before y = some .ready) (hx : b.state? before x ≠ some .ready)
    (hmemx : x ∈ b.destroyOrder (before ++ after)) (hmemy : y ∈ b.destroyOrder (before ++ after)) :
    [x, y].Sublist (b.destroyOrder (before ++ after)) := by
  have hready : (b.reached (before ++ after)).ready =
      (b.reached before).ready ++ after.filterMap Act.readies? := by
    rw [reached_append, Assembly.ready_after]
  have hby : y ∈ (b.reached before).ready := (hl.of_append.mem_ready_iff y).2 hy
  have hbx : x ∉ (b.reached before).ready := fun h => hx ((hl.of_append.mem_ready_iff x).1 h)
  rw [destroyOrder, List.mem_reverse, List.mem_filter] at hmemx hmemy
  have hax : x ∈ after.filterMap Act.readies? := by
    have := hmemx.1
    rw [hready, List.mem_append] at this
    exact this.resolve_left hbx
  have hsub : [y, x].Sublist (b.reached (before ++ after)).ready := by
    rw [hready]
    exact (List.singleton_sublist.2 hby).append (List.singleton_sublist.2 hax)
  have hfilter := hsub.filter fun i => (b.definitions[i]?).any (·.bean.destroys)
  rw [List.filter_eq_self.2 (by simp [hmemx.2, hmemy.2])] at hfilter
  exact hfilter.reverse

/-- Dependencies come first, and dependents are destroyed first. When a lookup is given the instance
of `y` while `x` is the innermost bean being wired, `y` is ready and `x` is not, and the
constructor, the injectors and the init callback of `y` have come to their ends. Destroy callbacks
run each once and that of `x` before that of `y`, whether refreshing fails or the container is
closed at some time. -/
theorem dependencies_first {before after : List Act} {outer : List Frame} {name : String}
    (hacts : b.acts = before ++ .receive y :: after)
    (hchain : (b.reached before).chain = outer ++ [⟨name, some x⟩]) :
    (b.state? before y = some .ready ∧ b.state? before x = some .wiring ∧
      ∀ d, b.definitions[y]? = some d → ∀ p ∈ d.bean.buildParts ++ d.bean.initParts,
        .mark (some y) (.ends p) ∈ before) ∧
    (b.destroyOrder b.acts).Nodup ∧
    (x ∈ b.destroyOrder b.acts → y ∈ b.destroyOrder b.acts →
      [x, y].Sublist (b.destroyOrder b.acts)) ∧
    (∀ e events, b.refresh = (.error e, events) → ∃ destroyed,
      events = (b.reached b.acts).events ++ destroyed ∧
      destroyed.map some = (b.destroyOrder b.acts).map (b.destruction? b.acts)) ∧
    ∀ c events, b.refresh = (.ok c, events) → ∀ steps, ∃ destroyed,
      (c.after steps).close.1 = (c.after steps).wait.1 ++ destroyed ++ [.closed] ∧
      (destroyed = [] ∨
        destroyed.map some = (b.destroyOrder b.acts).map (b.destruction? b.acts)) := by
  have hl := b.sound_acts.lawful
  have hlegal : b.Legal before (.receive y) := hl before _ after hacts
  have hbefore : b.Lawful before := .of_append (hacts ▸ hl)
  have hx : b.state? before x = some .wiring :=
    (hbefore.consistent.wiring_iff x).2 (by simp [Assembly.wirings, hchain])
  have hdestroyed := hl.destroyAll_destroyable
  refine ⟨⟨hlegal, hx, fun d hd p hp => ?_⟩, hl.nodup_destroyOrder, fun hmemx hmemy => ?_,
    fun e events he => ?_, fun c events hc steps => ?_⟩
  · have hends : .ends p ∈ course (d.bean.buildParts ++ d.bean.initParts) :=
      mem_course.2 ⟨p, hp, .inr rfl⟩
    exact mem_progress.1 ((hbefore.progress_ready hd hlegal).subset hends)
  · rw [hacts] at hl hmemx hmemy ⊢
    exact hl.destroyed_before hlegal (by rw [hx]; simp) hmemx hmemy
  · rcases b.refresh_cases with ⟨e', -, he'⟩ | ⟨c, -, hc, -⟩
    · cases he.symm.trans he'
      exact ⟨_, rfl, hdestroyed⟩
    · cases he.symm.trans hc
  · rcases b.refresh_cases with ⟨e, -, he⟩ | ⟨c', -, hc', -, -, hdestroyable, -⟩
    · cases hc.symm.trans he
    · obtain rfl : c = c' := by cases hc.symm.trans hc'; rfl
      refine ⟨destroyAll (c.after steps).destroyable, rfl, ?_⟩
      rcases c.destroyable_after steps with h | h
      · exact .inr (by rw [h, hdestroyable, hdestroyed])
      · exact .inl (by rw [h]; rfl)

/-- An injector of the first bean looks up the second one. -/
def pooling : Builder :=
  ((start .empty).register
    (.lone "cache" none [.act ⟨.get (.concrete "pool") .inferred, false⟩])).register
      (.lone "pool" none [])

theorem dependencies_first_pooling :
    pooling.acts = pooling.acts.take 15 ++ .receive 1 :: pooling.acts.drop 16 ∧
    (pooling.reached (pooling.acts.take 15)).chain = [⟨"cache", some 0⟩] ∧
    [0, 1].Sublist (pooling.destroyOrder pooling.acts) ∧
    ∃ c events destroyed, pooling.refresh = (.ok c, events) ∧
      c.close.1 = c.wait.1 ++ destroyed ++ [.closed] ∧
      (destroyed = [] ∨ destroyed.map some =
        (pooling.destroyOrder pooling.acts).map (pooling.destruction? pooling.acts)) := by
  have hacts : pooling.acts = pooling.acts.take 15 ++ .receive 1 :: pooling.acts.drop 16 := rfl
  have hchain : (pooling.reached (pooling.acts.take 15)).chain = [] ++ [⟨"cache", some 0⟩] := rfl
  obtain ⟨-, -, horder, -, hclose⟩ := dependencies_first hacts hchain
  obtain ⟨destroyed, hevents, hdestroyed⟩ := hclose _ _ rfl []
  exact ⟨hacts, hchain, horder (by decide) (by decide), _, _, destroyed, rfl, hevents, hdestroyed⟩

end Builder

end ConfigGraph
