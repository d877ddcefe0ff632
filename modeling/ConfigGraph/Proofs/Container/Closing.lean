import ConfigGraph.Proofs.Container.Cleanup
import ConfigGraph.Proofs.Container.Singletons

/-!
# Closing

What a container brings about step by step (`Container.happens`). Looking beans up, making others apart
and calling functions are work and destroy nothing (`Complete.works`), also within tasks. A task that is
started stays pending until it is waited for (`tasks_happens`), and what there is to destroy stays
until the container is closed (`destructions_happens`). So the first closing ends all tasks and then
destroys each registered bean that has a destroy callback, and nothing else ever does
(`Builder.close_destroys`).
-/

namespace ConfigGraph

open Wiring

namespace Event

mutual

/-- The instances that are destroyed in an event, within a task or not. -/
def destructions : Event → List Handle
  | destroyed handle => [handle]
  | task _ events => destructionsIn events
  | _ => []

/-- The instances that are destroyed in some events. -/
def destructionsIn : List Event → List Handle
  | [] => []
  | e :: rest => destructions e ++ destructionsIn rest

end

@[simp]
theorem destructionsIn_append (es es' : List Event) :
    destructionsIn (es ++ es') = destructionsIn es ++ destructionsIn es' := by
  induction es with
  | nil => rfl
  | cons e es ih =>
    rw [List.cons_append, destructionsIn, destructionsIn, ih, List.append_assoc]

theorem destructionsIn_eq_nil_iff {es : List Event} :
    destructionsIn es = [] ↔ ∀ e ∈ es, e.destructions = [] := by
  induction es with
  | nil => simp [destructionsIn]
  | cons e es ih => rw [destructionsIn, List.append_eq_nil_iff, ih, List.forall_mem_cons]

/-- The task that an event tells of, with what happened in it. -/
def task? : Event → Option (Nat × List Event)
  | task number events => some (number, events)
  | _ => none

theorem IsWork.destructions {e : Event} (he : e.IsWork) : e.destructions = [] := by
  cases he <;> rfl

theorem IsWork.task? {e : Event} (he : e.IsWork) : e.task? = none := by
  cases he <;> rfl

end Event

theorem destructionsIn_destroyAll (is : List Instance) :
    Event.destructionsIn (destroyAll is) = is.reverse.map (·.handle) := by
  unfold destroyAll
  induction is.reverse with
  | nil => rfl
  | cons i is ih =>
    rw [List.map_cons, Event.destructionsIn, ih]
    rfl

namespace Container

variable {c : Container} {α : Type}

/-- Every definition has an instance. -/
def Complete (c : Container) : Prop :=
  ∀ i < c.definitions.length, ∃ inst, c.assembly.instance? i = some inst

/-- A history in a container that has only done work, next to itself: no definition has changed. -/
def Working (c : Container) (h k : List Act) : Prop :=
  k = h ∧ (c.assembly.after h).slots = c.slots ∧ ∀ e, .note e ∈ h → e.IsWork

theorem Working.snoc {h k : List Act} {a : Act} (hR : c.Working h k)
    (hslots : ((c.assembly.after h).act a).slots = (c.assembly.after h).slots)
    (hnote : ∀ e, a = .note e → e.IsWork) : c.Working (h ++ [a]) (k ++ [a]) := by
  obtain ⟨rfl, hs, hwork⟩ := hR
  refine ⟨rfl, ?_, fun e he => ?_⟩
  · rw [Assembly.after_append]
    exact hslots.trans hs
  · rcases List.mem_append.1 he with he | he
    · exact hwork e he
    · exact hnote e (List.mem_singleton.1 he).symm

/-- A course does only work in a container. -/
def Works (c : Container) (x : Wiring α) : Prop :=
  Alike c.assembly c.assembly c.Working x x

/-- What is run in a container brings about nothing but work. -/
theorem Works.events {x : Wiring α} (hx : c.Works x) : ∀ e ∈ (c.run x).2.1, e.IsWork := by
  have hstart : c.Working [] [] := ⟨rfl, rfl, fun e he => absurd he List.not_mem_nil⟩
  obtain ⟨-, -, -, hwork⟩ := hx [] [] hstart
  intro e he
  rw [events_run] at he
  obtain ⟨a, ha, hnoted⟩ := List.mem_filterMap.1 he
  cases a with
  | note e' =>
    cases hnoted
    exact hwork e ha
  | _ => cases hnoted

namespace Complete

variable (hc : c.Complete)

include hc

/-- Lookups in a container go side by side with themselves, for they find all definitions ready. -/
theorem abreast_self {R : List Act → List Act → Prop}
    (hsilent : ∀ h k a, a.IsSilent → R h k → R (h ++ [a]) (k ++ [a]))
    (hR : ∀ h k, R h k → k = h ∧ (c.assembly.after h).slots = c.slots) :
    Abreast c.assembly c.assembly R c.context c.context [] (wireBean c.context)
      (wireBean c.context) where
  widens := c.context.widens_self
  silent := hsilent
  inner i hi := alike_wire c.context c.context hi hi (fun h k hhk => by
    obtain ⟨hk, hslots⟩ := hR h k hhk
    obtain ⟨inst, hinst⟩ := hc i hi
    have hinst : (c.assembly.after h).instance? i = some inst := by
      rw [Assembly.instance?, hslots]
      exact hinst
    exact ⟨inst, hinst, hk ▸ hinst⟩) _ _

theorem abreast : Abreast c.assembly c.assembly c.Working c.context c.context []
    (wireBean c.context) (wireBean c.context) :=
  hc.abreast_self (fun h k a ha hR => hR.snoc (by rw [ha.act_eq]) fun e he => by
    subst he
    cases ha with
    | note he => exact he) fun _ _ hR => ⟨hR.1, hR.2.1⟩

theorem wireApart (d : Definition) : c.Works (wireApart c.context (wireBean c.context) d) := by
  have ha := hc.abreast
  have htrace : ∀ h k, c.Working h k → (c.assembly.after k).trace = (c.assembly.after h).trace :=
    fun h k hR => by rw [hR.1]
  have hm : Marked c.Working none none := fun h k m hR => hR.snoc rfl fun e he => by cases he
  have hmade : MadeAlike c.assembly c.assembly c.Working :=
    ⟨fun h k hR => by rw [hR.1], fun h k taken hR => hR.snoc rfl fun e he => by cases he⟩
  refine .within _ (fun h k hR => hR.snoc rfl fun e he => by cases he)
    (fun h k hR => hR.snoc rfl fun e he => by cases he) ?_
  refine (ha.build htrace hm hmade fun q _ => c.context.same_self q).bind fun built =>
    (Abreast.initialized hm (fun h k e he => ha.silent h k _ (.note he)) d.bean built).bind
      fun inst => ?_
  exact (ha.runLinks htrace hm (fun _ _ q _ => c.context.same_self q) _).bind fun _ => .pure inst

omit hc in
theorem alike_call {R : List Act → List Act → Prop} (ha : Abreast c.assembly c.assembly R c.context
    c.context [] (wireBean c.context) (wireBean c.context)) (f : Function) :
    Alike c.assembly c.assembly R (c.call f) (c.call f) :=
  (ha.supplyAll fun q _ => c.context.same_self q).bind fun values => ha.note (.called values)

theorem call (f : Function) : c.Works (c.call f) :=
  alike_call hc.abreast f

theorem called (f : Function) : c.Works (c.called f) := by
  refine (hc.call f).bind fun _ => ?_
  cases f.refusal with
  | none => exact .pure _
  | some text => exact .fail _

/-- No step but waiting and closing brings about anything but work. -/
theorem works (step : Step) (hwait : step ≠ .wait) (hclose : step ≠ .close) :
    ∀ e ∈ (c.step step).2.1, e.IsWork := by
  have ha := hc.abreast
  cases step with
  | get type s => exact Works.events ((ha.getBean (c.context.same_self _)).map _)
  | inspect type s => exact Works.events ((ha.locate (c.context.same_self _)).bind fun found => .pure _)
  | collect type ss => exact Works.events ((ha.collectBeans fun q _ => c.context.same_self q).map _)
  | wire bean => exact Works.events ((hc.wireApart _).map _)
  | invoke f => exact Works.events (hc.called f)
  | wait => exact absurd rfl hwait
  | close => exact absurd rfl hclose
  | _ => exact fun e he => absurd he List.not_mem_nil

omit hc in
/-- A call whose parameters are supplied is noted. -/
theorem events_call (f : Function) (hr : (c.run (c.call f)).1 = .ok ()) :
    (c.run (c.call f)).2.1 ≠ [] := by
  have hmeets : (c.call f).Meets c.assembly [] fun r h => r = .ok () →
      ∃ values, .note (.called values) ∈ h := by
    refine meets_bind.2 (.of_forall fun r h => ?_)
    cases r with
    | error e => exact fun hr => by cases hr
    | ok values =>
      exact fun _ => ⟨values, List.mem_append_right _ (List.mem_singleton_self _)⟩
  obtain ⟨values, hmem⟩ := hmeets hr
  rw [events_run]
  exact List.ne_nil_of_mem (List.mem_filterMap.2 ⟨_, hmem, rfl⟩)

/-- Nothing is destroyed in a task, and something happens in each of them. -/
theorem taskEvents (number : Nat) (t : Task) :
    Event.destructionsIn (c.taskEvents number t) = [] ∧ c.taskEvents number t ≠ [] := by
  have hquiet : Event.destructionsIn (c.run (c.call ⟨t.params, t.args, none⟩)).2.1 = [] :=
    Event.destructionsIn_eq_nil_iff.2 fun e he => ((hc.call _).events e he).destructions
  have hcalled := events_call (c := c) ⟨t.params, t.args, none⟩
  unfold Container.taskEvents
  generalize c.run (c.call ⟨t.params, t.args, none⟩) = ran at hquiet hcalled ⊢
  obtain ⟨e | u, events, c'⟩ := ran
  · simp [hquiet, Event.destructionsIn, Event.destructions]
  · cases t.ending with
    | returns => exact ⟨hquiet, hcalled rfl⟩
    | fails text => simp [hquiet, Event.destructionsIn, Event.destructions]
    | panics text => simp [hquiet, Event.destructionsIn, Event.destructions]

end Complete

/-! ## Histories of a container -/

/-- What happens in some steps, one after the other. All clones of a container share it, so it does
not matter through which of them a step is taken. -/
def happens (c : Container) : List Step → List Event
  | [] => []
  | step :: rest => (c.step step).2.1 ++ (c.step step).2.2.happens rest

/-- The task that a step starts, with what happens in it. -/
def started? (c : Container) : Step → Option (Nat × List Event)
  | .go t => some (c.tasks, c.taskEvents c.tasks t)
  | _ => none

/-- The tasks that some steps start, in order. -/
def started (c : Container) : List Step → List (Nat × List Event)
  | [] => []
  | step :: rest => (c.started? step).toList ++ (c.step step).2.2.started rest

/-- A container with an instance of every definition, whose tasks destroy nothing. -/
structure Orderly (c : Container) : Prop where
  complete : c.Complete
  pending : ∀ p ∈ c.pending, Event.destructionsIn p.2 = [] ∧ p.2 ≠ []

theorem Orderly.step (ho : c.Orderly) (step : Step) : (c.step step).2.2.Orderly := by
  cases step with
  | go t =>
    refine ⟨ho.complete, fun p hp => ?_⟩
    rcases List.mem_append.1 hp with hp | hp
    · exact ho.pending p hp
    · rw [List.mem_singleton.1 hp]
      exact ho.complete.taskEvents c.tasks t
  | wait => exact ⟨ho.complete, fun p hp => absurd hp List.not_mem_nil⟩
  | close => exact ⟨ho.complete, fun p hp => absurd hp List.not_mem_nil⟩
  | _ => exact ⟨ho.complete, ho.pending⟩

theorem Orderly.after (ho : c.Orderly) (steps : List Step) : (c.after steps).Orderly := by
  induction steps generalizing c with
  | nil => exact ho
  | cons step rest ih => exact ih (ho.step step)

/-- Waiting tells of all pending tasks. -/
theorem Orderly.wait (ho : c.Orderly) :
    c.wait.1 = c.pending.map fun p => .task p.1 p.2 := by
  have hpending := ho.pending
  show c.pending.filterMap _ = _
  rw [← List.filterMap_eq_map]
  refine List.filterMap_congr fun p hp => ?_
  obtain ⟨number, events⟩ := p
  exact if_neg (by simpa using (hpending _ hp).2)

theorem Orderly.destructions_wait (ho : c.Orderly) : Event.destructionsIn c.wait.1 = [] := by
  rw [ho.wait, Event.destructionsIn_eq_nil_iff]
  intro e he
  obtain ⟨p, hp, rfl⟩ := List.mem_map.1 he
  exact (ho.pending p hp).1

theorem Orderly.tasks_wait (ho : c.Orderly) : c.wait.1.filterMap Event.task? = c.pending := by
  rw [ho.wait, List.filterMap_map]
  exact List.filterMap_some

theorem tasks_destroyAll (is : List Instance) : (destroyAll is).filterMap Event.task? = [] := by
  refine List.filterMap_eq_nil_iff.2 fun e he => ?_
  obtain ⟨i, -, rfl⟩ := List.mem_map.1 he
  rfl

/-- Tasks do not get lost in a step: they are told of, or they stay pending. -/
theorem Orderly.tasks_step (ho : c.Orderly) (step : Step) :
    (c.step step).2.1.filterMap Event.task? ++ (c.step step).2.2.pending =
      c.pending ++ (c.started? step).toList := by
  have hwork (hwait : step ≠ .wait) (hclose : step ≠ .close) :
      (c.step step).2.1.filterMap Event.task? = [] :=
    List.filterMap_eq_nil_iff.2 fun e he => (ho.complete.works step hwait hclose e he).task?
  cases step with
  | go t => rfl
  | wait =>
    show c.wait.1.filterMap Event.task? ++ [] = c.pending ++ []
    rw [ho.tasks_wait]
  | close =>
    show (c.wait.1 ++ destroyAll c.destroyable ++ [Event.closed]).filterMap Event.task? ++ [] =
      c.pending ++ []
    simp [ho.tasks_wait, tasks_destroyAll, Event.task?]
  | _ =>
    rw [hwork (by simp) (by simp)]
    exact (List.append_nil _).symm

/-- The tasks that steps tell of and those that are pending afterwards are those that were pending
before and those that the steps have started, in this order. -/
theorem Orderly.tasks_happens (ho : c.Orderly) (steps : List Step) :
    (c.happens steps).filterMap Event.task? ++ (c.after steps).pending =
      c.pending ++ c.started steps := by
  induction steps generalizing c with
  | nil => exact (List.append_nil _).symm
  | cons step rest ih =>
    have hrest := ih (ho.step step)
    have hstep := ho.tasks_step step
    show ((c.step step).2.1 ++ (c.step step).2.2.happens rest).filterMap Event.task? ++
        ((c.step step).2.2.after rest).pending =
      c.pending ++ ((c.started? step).toList ++ (c.step step).2.2.started rest)
    rw [List.filterMap_append, List.append_assoc, hrest, ← List.append_assoc, hstep,
      List.append_assoc]

/-- Only closing destroys anything, and then all there is. -/
theorem Orderly.destructions_step (ho : c.Orderly) (step : Step) :
    (step = .close → Event.destructionsIn (c.step step).2.1 =
      c.destroyable.reverse.map (·.handle)) ∧
    (step ≠ .close → Event.destructionsIn (c.step step).2.1 = [] ∧
      (c.step step).2.2.destroyable = c.destroyable) := by
  refine ⟨fun hclose => ?_, fun hclose => ⟨?_, ?_⟩⟩
  · subst hclose
    show Event.destructionsIn (c.wait.1 ++ destroyAll c.destroyable ++ [Event.closed]) = _
    rw [Event.destructionsIn_append, Event.destructionsIn_append, ho.destructions_wait,
      destructionsIn_destroyAll]
    exact List.append_nil _
  · by_cases hwait : step = .wait
    · subst hwait
      exact ho.destructions_wait
    · exact Event.destructionsIn_eq_nil_iff.2 fun e he =>
        (ho.complete.works step hwait hclose e he).destructions
  · cases step with
    | close => exact absurd rfl hclose
    | _ => rfl

/-- Without closing nothing is destroyed. -/
theorem Orderly.destructions_happens (ho : c.Orderly) {steps : List Step}
    (hclose : .close ∉ steps) : Event.destructionsIn (c.happens steps) = [] ∧
      (c.after steps).destroyable = c.destroyable := by
  induction steps generalizing c with
  | nil => exact ⟨rfl, rfl⟩
  | cons step rest ih =>
    obtain ⟨hstep, hrest⟩ := not_or.1 (mt List.mem_cons.2 hclose)
    obtain ⟨hquiet, hsame⟩ := (ho.destructions_step step).2 (Ne.symm hstep)
    obtain ⟨hquiet', hsame'⟩ := ih (ho.step step) hrest
    refine ⟨?_, hsame'.trans hsame⟩
    show Event.destructionsIn (_ ++ _) = []
    rw [Event.destructionsIn_append, hquiet, hquiet']
    rfl

/-- Where nothing is left to destroy, nothing is destroyed. -/
theorem Orderly.destructions_closed (ho : c.Orderly) (hnone : c.destroyable = [])
    (steps : List Step) : Event.destructionsIn (c.happens steps) = [] := by
  induction steps generalizing c with
  | nil => rfl
  | cons step rest ih =>
    have hquiet : Event.destructionsIn (c.step step).2.1 = [] := by
      by_cases hclose : step = .close
      · rw [(ho.destructions_step step).1 hclose, hnone]
        rfl
      · exact ((ho.destructions_step step).2 hclose).1
    have hnone' : (c.step step).2.2.destroyable = [] := by
      rcases c.destroyable_step step with h | h
      · exact h.trans hnone
      · exact h
    show Event.destructionsIn (_ ++ _) = []
    rw [Event.destructionsIn_append, hquiet, ih (ho.step step) hnone']
    rfl

theorem after_append (c : Container) (steps steps' : List Step) :
    c.after (steps ++ steps') = (c.after steps).after steps' :=
  List.foldl_append

end Container

namespace Builder

variable {b : Builder}

theorem orderly_finished (hrun : ((assemble b.context).run b.assembly).1 = .ok ()) :
    b.finished.Orderly where
  complete _ hi := exists_instance_finished hrun hi
  pending _ hp := absurd hp List.not_mem_nil

/-- Closing runs every destroy callback exactly once. Refreshing, when it succeeds, runs none of
them, and no step does before the container is closed for the first time. That first completes every
task that was started before and not waited for, and then runs the destroy callback of each
registered bean that has one, in the opposite of the order in which they became ready. Nothing that
happens afterwards, closing again included, runs any. In particular beans that are made apart are
never destroyed. -/
theorem close_destroys {c : Container} {events : List Event}
    (hok : b.refresh = (.ok c, events)) :
    (∃ quiet, events = b.events ++ quiet ++ [.refreshed b.definitions.length] ∧
      ∀ handle, .destroyed handle ∉ quiet) ∧
    ((b.destroyOrder b.acts).Nodup ∧
      (b.destroyOrder b.acts).Pairwise (fun i j => b.ReadyBefore b.acts j i) ∧
      ∀ i, i ∈ b.destroyOrder b.acts ↔
        ∃ d, b.definitions[i]? = some d ∧ d.bean.destroys = true) ∧
    ∀ before, .close ∉ before →
      Event.destructionsIn (c.happens before) = [] ∧
      ∃ completed destroyed,
        ((c.after before).step .close).2.1 = completed ++ destroyed ++ [.closed] ∧
        (c.happens before ++ completed).filterMap Event.task? = c.started before ∧
        Event.destructionsIn completed = [] ∧
        destroyed.map some = (b.destroyOrder b.acts).map (b.destruction? b.acts) ∧
        ∀ after, Event.destructionsIn ((c.after (before ++ [.close])).happens after) = [] := by
  obtain ⟨hrun, rfl, rfl⟩ := refresh_ok hok
  have hl := b.sound_acts.lawful
  have ho := orderly_finished hrun
  refine ⟨⟨_, by rw [events_reached], hl.not_destroyed⟩, ⟨hl.nodup_destroyOrder,
    hl.pairwise_destroyOrder, fun i => ?_⟩, fun before hclose => ?_⟩
  · rw [hl.mem_destroyOrder_iff]
    refine ⟨fun h => h.2, fun h => ⟨⟨b.acts, [], (List.append_nil _).symm, ?_⟩, h⟩⟩
    obtain ⟨d, hd, -⟩ := h
    exact (b.assemble_meets.2.1 hrun i d hd).1
  · obtain ⟨hquiet, hsame⟩ := ho.destructions_happens hclose
    have ho' := ho.after before
    have htasks := ho.tasks_happens before
    refine ⟨hquiet, (b.finished.after before).wait.1,
      destroyAll (b.finished.after before).destroyable, rfl, ?_, ho'.destructions_wait, ?_,
      fun after => ?_⟩
    · rw [List.filterMap_append, ho'.tasks_wait]
      exact htasks
    · rw [hsame]
      exact hl.destroyAll_destroyable
    · refine (ho.after _).destructions_closed ?_ after
      rw [Container.after_append]
      rfl

/-- A task is started and a bean with a destroy callback is made apart before the container is
closed, twice. -/
theorem close_destroys_pooling : ∃ c events completed destroyed,
    pooling.refresh = (.ok c, events) ∧
    ((c.after [.go ⟨[], [], .returns⟩, .wire (.lone "extra" none [])]).step .close).2.1 =
      completed ++ destroyed ++ [.closed] ∧
    completed.filterMap Event.task? = [(0, [.called []])] ∧
    destroyed = [.destroyed ⟨1, numberedTag (.concrete "cache") 1⟩,
      .destroyed ⟨2, numberedTag (.concrete "pool") 2⟩] ∧
    Event.destructionsIn ((c.after [.go ⟨[], [], .returns⟩, .wire (.lone "extra" none []),
      .close]).happens [.close]) = [] := by
  have hok : pooling.refresh = (.ok pooling.finished, _) := rfl
  obtain ⟨-, -, hclose⟩ := close_destroys hok
  obtain ⟨-, completed, destroyed, hevents, htasks, -, hdestroyed, hafter⟩ :=
    hclose [.go ⟨[], [], .returns⟩, .wire (.lone "extra" none [])] (by simp)
  have hall : pooling.destroyOrder pooling.acts = [0, 1] := rfl
  have hfirst : pooling.destruction? pooling.acts 0 =
      some (.destroyed ⟨1, numberedTag (.concrete "cache") 1⟩) := rfl
  have hsecond : pooling.destruction? pooling.acts 1 =
      some (.destroyed ⟨2, numberedTag (.concrete "pool") 2⟩) := rfl
  rw [hall, List.map_cons, List.map_singleton, hfirst, hsecond] at hdestroyed
  refine ⟨_, _, completed, destroyed, hok, hevents, ?_, ?_, hafter [.close]⟩
  · rw [List.filterMap_append] at htasks
    exact htasks
  · exact List.map_injective_iff.2 (fun _ _ => Option.some.inj) hdestroyed

end Builder

end ConfigGraph
