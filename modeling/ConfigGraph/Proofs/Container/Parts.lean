import ConfigGraph.Proofs.Container.Advance

/-!
# Running parts

The parts of a definition run in their order, each of them aside from all other definitions. Where
the first of them have run (`Builder.HasRun`), the next one may begin (`HasRun.part`), and then
those after it (`HasRun.inTurn`), up to the first that fails. So the constructor, the injectors and the
init callback of a bean are run by `build` and `initialized`.
-/

namespace ConfigGraph

namespace Builder

/-- After `h` the definition with number `i` is `d`, some parts of it have run to their ends, and no
other part has begun. -/
structure HasRun (b : Builder) (h : List Act) (i : Nat) (d : Definition) (ps : List Part) :
    Prop where
  sound : b.Sound h
  definition : b.definitions[i]? = some d
  begun : b.state? h i ≠ some .unwired
  ran : progress i h = course ps

/-- A part is no link callback, or those may run. -/
def Admits (b : Builder) (h : List Act) (i : Nat) (p : Part) : Prop :=
  (Mark.begins p).isLink = true → b.MayLink h i

variable {b : Builder} {owner : Option Nat} {h h' : List Act} {i : Nat} {d : Definition}
  {ps qs : List Part} {p : Part} {α β : Type}

theorem MayLink.advance (hm : b.MayLink h i) (ha : b.Advances owner h h') : b.MayLink h' i := by
  refine ⟨(ha.toLink i).trans hm.1, fun j hj => ?_⟩
  rw [ha.state j (by rw [hm.2 j hj]; simp), hm.2 j hj]

theorem Admits.advance (hm : b.Admits h i p) (ha : b.Advances owner h h') : b.Admits h' i p :=
  fun hp => (hm hp).advance ha

/-- The next mark of a definition. -/
theorem Advances.mark {m : Mark} (hs : b.Sound h) (hd : b.definitions[i]? = some d)
    (hbegun : b.state? h i ≠ some .unwired) (hm : progress i h ++ [m] <+: course d.bean.parts)
    (hlink : m.isLink = true → b.MayLink h i) :
    b.Advances (some i) h (h ++ [.mark (some i) m]) :=
  .once hs ⟨d, hd, hbegun, hm, hlink⟩ (by simp) rfl rfl (by simp) fun _ hj => if_neg hj

theorem progress_mark {m : Mark} :
    progress i (h ++ [.mark (some i) m]) = progress i h ++ [m] := by
  rw [progress_append_singleton, Act.markOf?, if_pos rfl]
  rfl

namespace HasRun

theorem advance (hr : b.HasRun h i d ps) (ha : b.Advances none h h') : b.HasRun h' i d ps where
  sound := ha.sound
  definition := hr.definition
  begun := ha.state i hr.begun ▸ hr.begun
  ran := (ha.parts i (by simp) hr.begun).trans hr.ran

/-- The next part of a definition begins. -/
theorem begins (hr : b.HasRun h i d ps) (hparts : d.bean.parts = ps ++ p :: qs)
    (hp : b.Admits h i p) : b.Advances (some i) h (h ++ [.mark (some i) (.begins p)]) :=
  .mark hr.sound hr.definition hr.begun
    ⟨.ends p :: course qs, by simp [hr.ran, hparts, course_append_cons]⟩ hp

/-- While the next part of a definition runs, no other part of it begins. -/
theorem progress_begun (hr : b.HasRun h i d ps)
    (ha : b.Advances none (h ++ [.mark (some i) (.begins p)]) h') :
    progress i h' = course ps ++ [.begins p] := by
  have hbegun : b.state? (h ++ [.mark (some i) (.begins p)]) i ≠ some .unwired := by
    rw [state?_snoc_of_none rfl]
    exact hr.begun
  rw [ha.parts i (by simp) hbegun, progress_mark, hr.ran]

/-- The next part of a definition runs to its end or fails. -/
theorem part (hr : b.HasRun h i d ps) (hparts : d.bean.parts = ps ++ p :: qs)
    (hp : b.Admits h i p) {x : Wiring α} (hx : x.Aside b) :
    (Wiring.part (some i) p x).Meets b.assembly h fun r h' => b.Advances (some i) h h' ∧
      ∀ a, r = .ok a → b.HasRun h' i d (ps ++ [p]) := by
  simp only [Wiring.part, Wiring.meets_bind, Wiring.meets_once, Wiring.meets_pure]
  have hbegin := hr.begins hparts hp
  refine (hx _ hbegin.sound).mono fun r h' ha => ?_
  have hback := hbegin.trans ha.own
  cases r with
  | error e => exact ⟨hback, by simp⟩
  | ok a =>
    have hbegun : b.state? h' i ≠ some .unwired := hback.state i hr.begun ▸ hr.begun
    have hran := hr.progress_begun ha
    have hend : b.Advances (some i) h' (h' ++ [.mark (some i) (.ends p)]) :=
      .mark hback.sound hr.definition hbegun ⟨course qs, by simp [hran, hparts, course_append_cons]⟩
        fun hm => hp.advance hback (by cases p <;> exact hm)
    refine ⟨hback.trans hend, fun _ _ => ⟨hend.sound, hr.definition, ?_, ?_⟩⟩
    · exact hend.state i hbegun ▸ hbegun
    · rw [progress_mark, hran, course_append, List.append_assoc]
      rfl

variable {stop : ContainerError → List Act → Prop} {stops : β → ContainerError → List Act → Prop}

/-- A part that fails has begun and not ended, and nothing is done after its failure. -/
theorem part_error (hr : b.HasRun h i d ps) (hparts : d.bean.parts = ps ++ p :: qs)
    (hp : b.Admits h i p) {x : Wiring α} (hx : x.Aside b)
    (hstop : ∀ h, x.Meets b.assembly h fun r h' => ∀ e, r = .error e → stop e h') :
    (Wiring.part (some i) p x).Meets b.assembly h fun r h' => ∀ e, r = .error e →
      progress i h' = course ps ++ [.begins p] ∧ stop e h' := by
  simp only [Wiring.part, Wiring.meets_bind, Wiring.meets_once, Wiring.meets_pure]
  refine ((hx _ (hr.begins hparts hp).sound).and (hstop _)).mono fun r h' hend => ?_
  obtain ⟨ha, hs⟩ := hend
  cases r with
  | error e =>
    rintro _ ⟨⟩
    exact ⟨hr.progress_begun ha, hs e rfl⟩
  | ok a => exact fun e he => by cases he

/-- Parts run one after the other. They stop at the first that fails, and nothing is done after its
failure. -/
theorem inTurn {kind : Nat → Part} {f : α → β → Wiring α} (hf : ∀ a c, (f a c).Aside b)
    (hstop : ∀ a c h, (f a c).Meets b.assembly h fun r h' => ∀ e, r = .error e → stops c e h')
    (k : Nat) (a : α) (cs : List β) (hr : b.HasRun h i d ps)
    (hparts : d.bean.parts = ps ++ (List.range' k cs.length).map kind ++ qs)
    (hp : ∀ k, b.Admits h i (kind k)) :
    (Wiring.inTurn (some i) kind f k a cs).Meets b.assembly h fun r h' =>
      b.Advances (some i) h h' ∧
      (∀ a, r = .ok a → b.HasRun h' i d (ps ++ (List.range' k cs.length).map kind)) ∧
      ∀ e, r = .error e → ∃ n c, cs[n]? = some c ∧ progress i h' =
        course (ps ++ (List.range' k n).map kind) ++ [.begins (kind (k + n))] ∧ stops c e h' := by
  induction cs generalizing k a h ps with
  | nil => simpa [Wiring.inTurn] using ⟨.refl hr.sound, hr⟩
  | cons c rest ih =>
    simp only [Wiring.inTurn, Wiring.meets_bind]
    simp only [List.length_cons, List.range'_succ, List.map_cons] at hparts ⊢
    have hnext : d.bean.parts =
        ps ++ kind k :: ((List.range' (k + 1) rest.length).map kind ++ qs) := by
      rw [hparts, List.append_assoc, List.cons_append]
    refine ((hr.part hnext (hp k) (hf a c)).and (hr.part_error hnext (hp k) (hf a c)
      (hstop a c))).mono fun r h' hend => ?_
    obtain ⟨⟨ha, hok⟩, herror⟩ := hend
    cases r with
    | error e =>
      refine ⟨ha, by simp, ?_⟩
      rintro _ ⟨⟩
      obtain ⟨hran, hs⟩ := herror e rfl
      exact ⟨0, c, rfl, by simpa using hran, hs⟩
    | ok a =>
      have hnext : d.bean.parts =
          (ps ++ [kind k]) ++ (List.range' (k + 1) rest.length).map kind ++ qs := by
        simp [hnext]
      refine (ih (k + 1) a (hok a rfl) hnext fun k => (hp k).advance ha).mono fun r h' hend => ?_
      obtain ⟨ha', hok', herror'⟩ := hend
      simp only [List.append_assoc ps, List.singleton_append] at hok' herror'
      refine ⟨ha.trans ha', hok', fun e he => ?_⟩
      obtain ⟨n, c', hc', hran, hs⟩ := herror' e he
      refine ⟨n + 1, c', hc', ?_, hs⟩
      rw [hran, List.range'_succ, List.map_cons, Nat.add_assoc, Nat.add_comm 1]

end HasRun

end Builder

open Builder

variable {b : Builder} {wire : Nat → Wiring Instance} {h : List Act} {i : Nat} {d : Definition}

theorem Wires.construct (hw : Wires b wire) (ctx : Context) (hr : b.HasRun h i d []) :
    (construct ctx wire (some i) d).Meets b.assembly h fun r h' => b.Advances (some i) h h' ∧
      ∀ inst, r = .ok inst → b.HasRun h' i d [.constructor] := by
  have hpart : ∀ {h' : List Act} {x : Wiring Instance}, b.HasRun h' i d [] → x.Aside b →
      (Wiring.part (some i) .constructor x).Meets b.assembly h' fun r h'' =>
        b.Advances (some i) h' h'' ∧ ∀ inst, r = .ok inst → b.HasRun h'' i d [.constructor] :=
    fun hr hx => hr.part rfl (fun hp => nomatch hp) hx
  unfold ConfigGraph.construct
  split
  · exact hpart hr (.pure _)
  · exact hpart hr (makeInstance_aside _ _)
  · refine Wiring.meets_bind.2 ((hw.supplyAll ctx _ h hr.sound).mono fun r h' ha => ?_)
    cases r with
    | error e => exact ⟨ha.own, by simp⟩
    | ok deps =>
      exact (hpart (hr.advance ha) (runConstructor_aside _ _ _)).mono
        fun r h'' ⟨ha', hok⟩ => ⟨ha.own.trans ha', hok⟩

theorem Wires.build (hw : Wires b wire) (ctx : Context) (hr : b.HasRun h i d []) :
    (build ctx wire (some i) d).Meets b.assembly h fun r h' => b.Advances (some i) h h' ∧
      ∀ inst, r = .ok inst → b.HasRun h' i d d.bean.buildParts := by
  refine Wiring.meets_bind.2 ((hw.construct ctx hr).mono fun r h' hend => ?_)
  obtain ⟨ha, hok⟩ := hend
  cases r with
  | error e => exact ⟨ha, by simp⟩
  | ok inst =>
    have hparts : d.bean.parts = [.constructor] ++
        (List.range' 0 d.bean.injectors.length).map .injector ++
          (d.bean.initParts ++ d.bean.linkParts) := by
      rw [← List.range_eq_range', Bean.parts, List.append_assoc]
      rfl
    refine ((hok inst rfl).inTurn (fun inst j => hw.runInjector ctx d.bean inst j)
      (fun _ _ _ => .of_forall fun _ _ _ _ => True.intro) 0 inst _ hparts
      fun k hp => by cases hp).mono fun r h' hend => ⟨ha.trans hend.1, fun inst hr => ?_⟩
    have := hend.2.1 inst hr
    rwa [← List.range_eq_range'] at this

theorem Builder.HasRun.initialized (hr : b.HasRun h i d d.bean.buildParts) (inst : Instance) :
    (initialized (some i) d.bean inst).Meets b.assembly h fun r h' => b.Advances (some i) h h' ∧
      ∀ inst, r = .ok inst → b.HasRun h' i d (d.bean.buildParts ++ d.bean.initParts) := by
  unfold ConfigGraph.initialized
  cases hinit : d.bean.init with
  | none => simpa [Bean.initParts, hinit] using ⟨.refl hr.sound, hr⟩
  | some init =>
    have hparts : d.bean.initParts = [.init] := by simp [Bean.initParts, hinit]
    rw [hparts]
    exact hr.part (p := .init) (by rw [Bean.parts, hparts, List.append_assoc]; rfl)
      (fun hp => nomatch hp) (runInit_aside _ _ _)

end ConfigGraph
