import ConfigGraph.Proofs.Container.Closing
import ConfigGraph.Proofs.Number.Decimal

/-!
# Tasks beside each other

Containers that differ only in what has happened in one task (`Container.SameBut`) give the same
answers, and the same events but for that task (`SameBut.step`, `SameBut.trace`), so whatever runs
as a task, the others do not notice it. How a task ends is told once, by an error that names it,
when it does not succeed (`Orderly.alarms_happens`).
-/

namespace ConfigGraph

open Wiring

/-- Where no two entries have the same key and only one of them has parts, the parts are its own. -/
theorem flatMap_eq_of_nodup {α β γ : Type} {l : List (α × β)} {f : α × β → List γ} {x : α × β}
    (hd : (l.map (·.1)).Nodup) (hx : x ∈ l) (hf : ∀ y ∈ l, y.1 ≠ x.1 → f y = []) :
    l.flatMap f = f x := by
  obtain ⟨front, rest, rfl⟩ := List.append_of_mem hx
  rw [List.map_append, List.map_cons, List.nodup_middle, List.nodup_cons, ← List.map_append] at hd
  have hother : ∀ y ∈ front ++ rest, f y = [] := fun y hy =>
    hf y (by simp only [List.mem_append, List.mem_cons] at hy ⊢; exact hy.imp_right .inr)
      fun e => hd.1 (e ▸ List.mem_map_of_mem hy)
  obtain ⟨hfront, hrest⟩ := List.forall_mem_append.1 hother
  rw [List.flatMap_append, List.flatMap_cons, List.flatMap_eq_nil_iff.2 hfront,
    List.flatMap_eq_nil_iff.2 hrest, List.nil_append, List.append_nil]

namespace Event

mutual

/-- The log lines of an event, with those of what happens within a task. -/
def lines : Event → List LogLine
  | task _ events => linesIn events
  | e => e.log?.toList

/-- The log lines of some events. -/
def linesIn : List Event → List LogLine
  | [] => []
  | e :: rest => lines e ++ linesIn rest

end

theorem linesIn_eq (es : List Event) : linesIn es = es.flatMap lines := by
  induction es with
  | nil => rfl
  | cons e es ih => rw [linesIn, ih, List.flatMap_cons]

theorem linesIn_append (es es' : List Event) : linesIn (es ++ es') = linesIn es ++ linesIn es' := by
  simp only [linesIn_eq, List.flatMap_append]

/-- Events without what happened in the task with a number. -/
def without (n : Nat) (es : List Event) : List Event :=
  es.filter fun e => (e.task?.map (·.1)) != some n

theorem without_append (n : Nat) (es es' : List Event) :
    without n (es ++ es') = without n es ++ without n es' :=
  List.filter_append es es'

theorem IsWork.lines {e : Event} (he : e.IsWork) : e.lines = [] := by
  cases he <;> rfl

end Event

@[simp]
theorem taskName_inj {m n : Nat} : taskName m = taskName n ↔ m = n := by
  refine ⟨fun h => Number.digits_inj ?_, congrArg taskName⟩
  have hrepr : m.repr = n.repr := (String.append_right_inj _).1 h
  rw [Number.digits, Number.digits, ← Nat.toList_repr, hrepr, Nat.toList_repr]

/-- The line is an error that names the task with a number. -/
def LogLine.accuses (n : Nat) (l : LogLine) : Bool :=
  match l.level with
  | .error => l.fields.contains ("task", taskName n)
  | _ => false

/-- The alarms for the task with a number that some events tell of. -/
def Event.alarms (n : Nat) (es : List Event) : List LogLine :=
  (linesIn es).filter (LogLine.accuses n)

namespace Task

/-- The event with which a task ends that does not succeed. -/
def failure? (t : Task) (n : Nat) : (supplied : Except ContainerError Unit) → Option Event
  | .error e => some (.taskFailed n e.message)
  | .ok () =>
    match t.ending with
    | .returns => none
    | .fails text => some (.taskFailed n text)
    | .panics text => some (.taskPanicked n (text.getD "<unknown panic>"))

/-- The line that is logged for a task that does not succeed: one whose parameters are not supplied,
or that returns an error, has failed. -/
def alarm? (t : Task) (n : Nat) : (supplied : Except ContainerError Unit) → Option LogLine
  | .error e => some ⟨.error, "task failed", [("task", taskName n), ("error", e.message)]⟩
  | .ok () =>
    match t.ending with
    | .returns => none
    | .fails text => some ⟨.error, "task failed", [("task", taskName n), ("error", text)]⟩
    | .panics text =>
      some ⟨.error, "task panicked",
        [("task", taskName n), ("panic", text.getD "<unknown panic>")]⟩

theorem linesIn_failure? (t : Task) (n : Nat) (supplied : Except ContainerError Unit) :
    Event.linesIn (t.failure? n supplied).toList = (t.alarm? n supplied).toList := by
  cases supplied with
  | error e => rfl
  | ok u =>
    unfold failure? alarm?
    cases t.ending <;> rfl

/-- The alarm of a task names that task and no other one. -/
theorem accuses_alarm? {t : Task} {n : Nat} {supplied : Except ContainerError Unit} {l : LogLine}
    (hl : t.alarm? n supplied = some l) (m : Nat) : l.accuses m = (m == n) := by
  have hname : ∀ message field (text : String), field ≠ "task" →
      LogLine.accuses m ⟨.error, message, [("task", taskName n), (field, text)]⟩ = (m == n) := by
    intro message field text hfield
    have hname : ("task", taskName m) = ("task", taskName n) ↔ m = n := by simp
    have hother : ("task", taskName m) ≠ (field, text) :=
      fun h => hfield (congrArg Prod.fst h).symm
    rw [Bool.eq_iff_iff, beq_iff_eq]
    simp [LogLine.accuses, hother]
  cases supplied with
  | error e =>
    cases hl
    exact hname _ _ _ (by decide)
  | ok u =>
    unfold alarm? at hl
    cases hending : t.ending with
    | returns => rw [hending] at hl; cases hl
    | _ =>
      rw [hending] at hl
      cases hl
      exact hname _ _ _ (by decide)

/-- Which of the lines for a task accuse another one: none. -/
theorem filter_alarm? (t : Task) (n m : Nat) (supplied : Except ContainerError Unit) :
    (t.alarm? n supplied).toList.filter (LogLine.accuses m) =
      if m = n then (t.alarm? n supplied).toList else [] := by
  cases hl : t.alarm? n supplied with
  | none => simp
  | some l =>
    simp [accuses_alarm? hl, List.filter_cons]

end Task

def Step.isGo : Step → Bool
  | .go _ => true
  | _ => false

namespace Container

variable {c c' : Container} {n : Nat}

/-- What comes of supplying the parameters of a task and calling its function. -/
def supplied (c : Container) (t : Task) : Except ContainerError Unit × List Event × Container :=
  c.run (c.call ⟨t.params, t.args, none⟩)

/-- A task is a call, and then maybe a failure. -/
theorem taskEvents_eq (c : Container) (n : Nat) (t : Task) :
    c.taskEvents n t = (c.supplied t).2.1 ++ (t.failure? n (c.supplied t).1).toList := by
  unfold taskEvents supplied
  generalize c.run (c.call ⟨t.params, t.args, none⟩) = ran
  obtain ⟨e | u, events, c'⟩ := ran
  · rfl
  · unfold Task.failure?
    cases t.ending with
    | returns => exact (List.append_nil _).symm
    | _ => rfl

/-! ## Two runs -/

/-- The containers differ at most in what has happened in the tasks with a number. -/
structure SameBut (n : Nat) (c c' : Container) : Prop where
  same : c' = { c with pending := c'.pending }
  pending : c'.pending.filter (·.1 != n) = c.pending.filter (·.1 != n)

/-- The answers to some steps, each with what happens in it. -/
def trace (c : Container) : List Step → List (Except ContainerError Reply × List Event)
  | [] => []
  | step :: rest => ((c.step step).1, (c.step step).2.1) :: (c.step step).2.2.trace rest

theorem trace_append (c : Container) (steps steps' : List Step) :
    c.trace (steps ++ steps') = c.trace steps ++ (c.after steps).trace steps' := by
  induction steps generalizing c with
  | nil => rfl
  | cons step rest ih => exact congrArg (_ :: ·) (ih _)

theorem without_wait (n : Nat) (c : Container) : Event.without n c.wait.1 =
    (c.pending.filter (·.1 != n)).filterMap fun p =>
      if p.2.isEmpty then none else some (.task p.1 p.2) := by
  show (c.pending.filterMap _).filter _ = _
  rw [List.filter_filterMap, List.filterMap_filter]
  refine List.filterMap_congr fun p _ => ?_
  by_cases hempty : p.2.isEmpty = true
  · simp [hempty]
  · simp [hempty, Option.filter, Event.task?]

namespace SameBut

variable (h : SameBut n c c')

include h

theorem wait : Event.without n c'.wait.1 = Event.without n c.wait.1 := by
  rw [without_wait, without_wait, h.pending]

/-- A step is answered alike, and but for the tasks with the number the same happens. -/
theorem step (step : Step) :
    (c'.step step).1 = (c.step step).1 ∧
      Event.without n (c'.step step).2.1 = Event.without n (c.step step).2.1 ∧
      SameBut n (c.step step).2.2 (c'.step step).2.2 := by
  have hwait := h.wait
  obtain ⟨hsame, hpending⟩ := h
  generalize c'.pending = pending at hsame hpending
  subst hsame
  cases step with
  | go t =>
    refine ⟨rfl, rfl, rfl, ?_⟩
    show (pending ++ [_]).filter _ = (c.pending ++ [_]).filter _
    rw [List.filter_append, List.filter_append, hpending, taskEvents_eq, taskEvents_eq]
    rfl
  | wait => exact ⟨rfl, hwait, rfl, rfl⟩
  | close =>
    refine ⟨rfl, ?_, rfl, rfl⟩
    show Event.without n ((Container.wait _).1 ++ destroyAll c.destroyable ++ [.closed]) =
      Event.without n (c.wait.1 ++ destroyAll c.destroyable ++ [.closed])
    rw [Event.without_append, Event.without_append, hwait, ← Event.without_append,
      ← Event.without_append]
  | _ => exact ⟨rfl, rfl, rfl, hpending⟩

theorem trace (steps : List Step) :
    (c'.trace steps).map (fun e => (e.1, Event.without n e.2)) =
      (c.trace steps).map fun e => (e.1, Event.without n e.2) := by
  induction steps generalizing c c' with
  | nil => rfl
  | cons step rest ih =>
    obtain ⟨hreply, hevents, hrest⟩ := h.step step
    simp only [Container.trace, List.map_cons, hreply, hevents, ih hrest]

end SameBut

/-- Two tasks started at the same time. -/
theorem sameBut_go (c : Container) (t t' : Task) : SameBut c.tasks (c.go t) (c.go t') where
  same := rfl
  pending := by simp [go, List.filter_append]

/-! ## Numbers -/

theorem tasks_after (c : Container) (steps : List Step) :
    (c.after steps).tasks = c.tasks + steps.countP Step.isGo := by
  induction steps generalizing c with
  | nil => rfl
  | cons step rest ih =>
    have hstep : (c.step step).2.2.tasks = c.tasks + if step.isGo then 1 else 0 := by
      cases step <;> rfl
    rw [List.countP_cons, Nat.add_comm (rest.countP _), ← Nat.add_assoc, ← hstep]
    exact ih _

/-- Tasks are numbered in the order in which they are started. -/
theorem map_started (c : Container) (steps : List Step) :
    (c.started steps).map (·.1) = List.range' c.tasks (steps.countP Step.isGo) := by
  induction steps generalizing c with
  | nil => rfl
  | cons step rest ih =>
    show ((c.started? step).toList ++ (c.step step).2.2.started rest).map (·.1) = _
    rw [List.map_append, ih, List.countP_cons]
    cases step with
    | go t => rfl
    | _ => rfl

/-! ## Parameters -/

/-- In the container, beside itself, nothing has come about but events. -/
def Undisturbed (c : Container) (h k : List Act) : Prop :=
  k = h ∧ c.assembly.after h = { c.assembly with events := (c.assembly.after h).events }

/-- Supplying parameters and calling a function changes nothing in a container. -/
theorem Complete.run_call (hc : c.Complete) (f : Function) : (c.run (c.call f)).2.2 = c := by
  have hsilent : ∀ h k a, a.IsSilent → c.Undisturbed h k → c.Undisturbed (h ++ [a]) (k ++ [a]) := by
    rintro h k a ha ⟨rfl, hafter⟩
    refine ⟨rfl, ?_⟩
    rw [ha.after_snoc, hafter]
  have ha := hc.abreast_self hsilent fun h k hR => ⟨hR.1, congrArg Assembly.slots hR.2⟩
  obtain ⟨-, -, hend⟩ := alike_call ha f [] [] ⟨rfl, rfl⟩
  have hmade : ((c.call f).run c.assembly).2.made = c.made := by
    rw [run_snd]
    exact congrArg Assembly.made hend
  show { c with made := ((c.call f).run c.assembly).2.made } = c
  rw [hmade]

/-! ## Alarms -/

/-- In a task only its own failure raises an alarm. -/
theorem Complete.alarms_taskEvents (hc : c.Complete) (n m : Nat) (t : Task) :
    Event.alarms n (c.taskEvents m t) =
      if n = m then (t.alarm? m (c.supplied t).1).toList else [] := by
  have hcall : Event.linesIn (c.supplied t).2.1 = [] := by
    rw [Event.linesIn_eq, List.flatMap_eq_nil_iff]
    exact fun e he => ((hc.call _).events e he).lines
  rw [Event.alarms, taskEvents_eq, Event.linesIn_append, hcall, Task.linesIn_failure?,
    List.nil_append, Task.filter_alarm?]

/-- Outside of tasks there are no alarms. -/
theorem Orderly.quiet_step (ho : c.Orderly) (n : Nat) (step : Step) :
    ∀ e ∈ (c.step step).2.1, e.task? = none → Event.alarms n [e] = [] := by
  have htold : ∀ e ∈ c.wait.1, e.task? ≠ none := by
    rw [ho.wait]
    intro e he
    obtain ⟨p, -, rfl⟩ := List.mem_map.1 he
    simp [Event.task?]
  have hwork (hwait : step ≠ .wait) (hclose : step ≠ .close) :
      ∀ e ∈ (c.step step).2.1, e.task? = none → Event.alarms n [e] = [] := by
    intro e he _
    rw [Event.alarms, Event.linesIn, (ho.complete.works step hwait hclose e he).lines]
    rfl
  cases step with
  | wait => exact fun e he hnone => absurd hnone (htold e he)
  | close =>
    intro e he hnone
    rcases List.mem_append.1 he with he | he
    · rcases List.mem_append.1 he with he | he
      · exact absurd hnone (htold e he)
      · obtain ⟨i, -, rfl⟩ := List.mem_map.1 he
        rfl
    · rw [List.mem_singleton.1 he]
      rfl
  | _ => exact hwork (by simp) (by simp)

theorem Orderly.quiet_happens (ho : c.Orderly) (n : Nat) (steps : List Step) :
    ∀ e ∈ c.happens steps, e.task? = none → Event.alarms n [e] = [] := by
  induction steps generalizing c with
  | nil => exact fun e he => absurd he List.not_mem_nil
  | cons step rest ih =>
    intro e he
    rcases List.mem_append.1 he with he | he
    · exact ho.quiet_step n step e he
    · exact ih (ho.step step) e he

/-- Where there are no alarms outside of tasks, all of them are within tasks. -/
theorem alarms_eq {es : List Event}
    (hquiet : ∀ e ∈ es, e.task? = none → Event.alarms n [e] = []) :
    Event.alarms n es = (es.filterMap Event.task?).flatMap fun p => Event.alarms n p.2 := by
  induction es with
  | nil => rfl
  | cons e es ih =>
    obtain ⟨he, hes⟩ := List.forall_mem_cons.1 hquiet
    have hcons : Event.alarms n (e :: es) = Event.alarms n [e] ++ Event.alarms n es := by
      simp only [Event.alarms, Event.linesIn, List.append_nil, List.filter_append]
    rw [hcons, ih hes, List.filterMap_cons]
    cases htask : e.task? with
    | none => rw [he htask]; rfl
    | some p =>
      obtain ⟨m, events⟩ := p
      have hevent : e = .task m events := by cases e <;> cases htask; rfl
      rw [hevent, List.flatMap_cons]
      simp [Event.alarms, Event.linesIn, Event.lines]

/-- What a started task tells of is no alarm for another one. -/
theorem Orderly.alarms_started (ho : c.Orderly) {steps : List Step} {p : Nat × List Event}
    (hp : p ∈ c.started steps) (hn : p.1 ≠ n) : Event.alarms n p.2 = [] := by
  induction steps generalizing c with
  | nil => cases hp
  | cons step rest ih =>
    rcases List.mem_append.1 hp with hp | hp
    · cases step with
      | go t =>
        cases List.mem_singleton.1 hp
        rw [ho.complete.alarms_taskEvents, if_neg (Ne.symm hn)]
      | _ => cases hp
    · exact ih (ho.step step) hp

theorem happens_append (c : Container) (steps steps' : List Step) :
    c.happens (steps ++ steps') = c.happens steps ++ (c.after steps).happens steps' := by
  induction steps generalizing c with
  | nil => rfl
  | cons step rest ih =>
    show _ ++ (c.step step).2.2.happens (rest ++ steps') = (_ ++ _) ++ _
    rw [ih, List.append_assoc]
    rfl

theorem started_append (c : Container) (steps steps' : List Step) :
    c.started (steps ++ steps') = c.started steps ++ (c.after steps).started steps' := by
  induction steps generalizing c with
  | nil => rfl
  | cons step rest ih =>
    show _ ++ (c.step step).2.2.started (rest ++ steps') = (_ ++ _) ++ _
    rw [ih, List.append_assoc]
    rfl

/-- A task that is waited for is told of. -/
theorem Orderly.mem_tasks (ho : c.Orderly) (hnone : c.pending = []) (before : List Step)
    {after : List Step} (t : Task) (hwaited : .wait ∈ after ∨ .close ∈ after) :
    ((c.after before).tasks, (c.after before).taskEvents (c.after before).tasks t) ∈
      (c.happens (before ++ .go t :: after)).filterMap Event.task? := by
  obtain ⟨front, last, rest, rfl, hlast⟩ : ∃ front last rest, after = front ++ last :: rest ∧
      (last = .wait ∨ last = .close) := by
    rcases hwaited with h | h
    · obtain ⟨front, rest, rfl⟩ := List.append_of_mem h
      exact ⟨front, _, rest, rfl, .inl rfl⟩
    · obtain ⟨front, rest, rfl⟩ := List.append_of_mem h
      exact ⟨front, _, rest, rfl, .inr rfl⟩
  have hsteps : before ++ .go t :: (front ++ last :: rest) =
      (before ++ .go t :: (front ++ [last])) ++ rest := by simp
  have hpending : (c.after (before ++ .go t :: (front ++ [last]))).pending = [] := by
    rw [show before ++ .go t :: (front ++ [last]) = (before ++ .go t :: front) ++ [last] by simp,
      after_append]
    rcases hlast with rfl | rfl <;> rfl
  have htasks := ho.tasks_happens (before ++ .go t :: (front ++ [last]))
  rw [hpending, hnone, List.append_nil, List.nil_append] at htasks
  rw [hsteps, happens_append, List.filterMap_append, htasks, started_append]
  exact List.mem_append_left _ (List.mem_append_right _ List.mem_cons_self)

/-- The alarms for a task that was waited for: one, when it has not succeeded. -/
theorem Orderly.alarms_happens (ho : c.Orderly) (hnone : c.pending = []) (before : List Step)
    {after : List Step} (t : Task) (hwaited : .wait ∈ after ∨ .close ∈ after) :
    Event.alarms (c.after before).tasks (c.happens (before ++ .go t :: after)) =
      (t.alarm? (c.after before).tasks ((c.after before).supplied t).1).toList := by
  have ho' := ho.after before
  have hmem := ho.mem_tasks hnone before t hwaited
  have htasks := ho.tasks_happens (before ++ .go t :: after)
  rw [hnone, List.nil_append] at htasks
  have hd : ((c.started (before ++ .go t :: after)).map (·.1)).Nodup := by
    rw [map_started]
    exact List.nodup_range'
  rw [alarms_eq (ho.quiet_happens _ _)]
  generalize (c.happens (before ++ .go t :: after)).filterMap Event.task? = told at hmem htasks ⊢
  rw [← htasks, List.map_append] at hd
  rw [flatMap_eq_of_nodup hd.of_append_left hmem, ho'.complete.alarms_taskEvents, if_pos rfl]
  intro p hp hn
  exact ho.alarms_started (htasks ▸ List.mem_append_left _ hp) hn

end Container

/-- Tasks do not disturb each other. The task that a step starts has the number of those started
before it. Whatever function with whatever parameters it runs, each step is answered alike, and but
for this task the same happens in it; supplying its parameters changes nothing in the container.
Once it has been waited for it has raised no alarm if it succeeds, and exactly one that names it if
its parameters cannot be supplied, if it returns an error or if it panics. -/
theorem Builder.tasks_isolated {b : Builder} {c : Container} {events : List Event}
    (hok : b.refresh = (.ok c, events)) (before after : List Step) (t : Task) :
    (c.after before).tasks = before.countP Step.isGo ∧
    ((c.started (before ++ .go t :: after)).map (·.1)).Nodup ∧
    (∀ t' : Task,
      (c.trace (before ++ .go t' :: after)).map
          (fun e => (e.1, Event.without (c.after before).tasks e.2)) =
        (c.trace (before ++ .go t :: after)).map
          fun e => (e.1, Event.without (c.after before).tasks e.2)) ∧
    ((c.after before).supplied t).2.2 = c.after before ∧
    ((.wait ∈ after ∨ .close ∈ after) →
      Event.alarms (c.after before).tasks (c.happens (before ++ .go t :: after)) =
        (t.alarm? (c.after before).tasks ((c.after before).supplied t).1).toList) := by
  obtain ⟨hrun, rfl, -⟩ := refresh_ok hok
  have ho := orderly_finished hrun
  have ho' := ho.after before
  refine ⟨?_, ?_, fun t' => ?_, ho'.complete.run_call _, ho.alarms_happens rfl before t⟩
  · rw [Container.tasks_after]
    exact Nat.zero_add _
  · rw [Container.map_started]
    exact List.nodup_range'
  · have hrest := ((b.finished.after before).sameBut_go t t').trace after
    rw [Container.trace_append, Container.trace_append, List.map_append, List.map_append]
    exact congrArg _ (congrArg (_ :: ·) hrest)

/-- The second task panics; in its place there may be one that asks for a bean that is not there. -/
theorem Builder.tasks_isolated_pooling : ∃ c events, pooling.refresh = (.ok c, events) ∧
    Event.alarms 1 (c.happens [.go ⟨[], [], .returns⟩, .go ⟨[], [], .panics none⟩, .wait]) =
      [⟨.error, "task panicked", [("task", taskName 1), ("panic", "<unknown panic>")]⟩] ∧
    (c.trace [.go ⟨[], [], .returns⟩, .go ⟨[.bean (.concrete "none")], [], .returns⟩, .wait]).map
        (fun e => (e.1, Event.without 1 e.2)) =
      (c.trace [.go ⟨[], [], .returns⟩, .go ⟨[], [], .panics none⟩, .wait]).map
        fun e => (e.1, Event.without 1 e.2) := by
  have hok : pooling.refresh = (.ok pooling.finished, _) := rfl
  obtain ⟨-, -, hsame, -, halarms⟩ :=
    tasks_isolated hok [.go ⟨[], [], .returns⟩] [.wait] ⟨[], [], .panics none⟩
  exact ⟨_, _, hok, halarms (.inl List.mem_cons_self), hsame _⟩

end ConfigGraph
