import ConfigGraph.Proofs.Container.Abreast
import ConfigGraph.Proofs.Container.Dependencies
import ConfigGraph.Proofs.Container.Upkeep
import ConfigGraph.Proofs.Container.Walk

/-!
# The conduct of refreshing

What refreshing does is followed act by act: a property of histories in which all has gone well, one
of those in which a lookup has just given an error and one of those in which a step has just failed
(`Builder.Conduct`) need only stand single acts and steps. The recursion of wiring and linking is gone
through once for all such properties (`Conduct.assemble`).
-/

namespace ConfigGraph

open Wiring

/-- The callback that an injector is. -/
def Injector.callback? : Injector → Option Callback
  | act c => some c
  | bindSelf _ => none

/-- The callback that runs as a part of a bean. -/
def Bean.callback? (b : Bean) : Part → Option Callback
  | .injector k => (b.injectors[k]?).bind Injector.callback?
  | .link k => b.links[k]?
  | .constructor | .init => none

/-- An act that belongs to the linking of definitions. -/
def Act.IsLinking : Act → Prop
  | takeLinks _ | push _ | pop => True
  | mark _ m => m.isLink = true
  | _ => False

/-- An act by which a definition fails. -/
inductive Act.Drops (i : Nat) : Act → Prop where
  | leave : Drops i (.leave i false)
  | abandon : Drops i (.abandon i)

/-- An act that is done when a part has failed with an error, before a lookup is given that error. -/
inductive Act.Undoes (e : ContainerError) : Act → Prop where
  | drop {i : Nat} {a : Act} (ha : a.Drops i) : Undoes e a
  | note (phase : Phase) (handle : Handle) (name : String) :
      Undoes e (.note (.acted phase handle name (.error e)))
  | pop : Undoes e .pop

namespace Builder

/-- Some callback of a bean may fail with an error that it has made up itself. -/
def Invents (b : Builder) (e : ContainerError) : Prop :=
  ∃ d ∈ b.definitions, ∃ p c, d.bean.callback? p = some c ∧ c.action.Invents e

/-- Wires what is looked up after a history: each definition that is being wired has taken one off
the depth. -/
def wireAt (b : Builder) (h : List Act) : Nat → Wiring Instance :=
  wire b.context (b.definitions.length - (b.reached h).wirings.length)

/-- What runs as a step of a definition when an act is done after a history: its parameters are
supplied, a part of it runs, or the action of a callback is performed. -/
inductive Step (b : Builder) (h : List Act) : Act → {α : Type} → Wiring α → Prop where
  | parameters {i : Nat} {d : Definition} (name : String) (hd : b.definitions[i]? = some d)
      (hobject : d.object = none) : Step b h (.enter i name)
        (supplyAll b.context (b.wireAt (h ++ [.enter i name])) d.bean.function)
  | constructor {i : Nat} {d : Definition} (hd : b.definitions[i]? = some d)
      (hobject : d.object = none) (deps : List Supplied) :
      Step b h (.mark (some i) (.begins .constructor))
        (runConstructor d.bean d.bean.function.refusal deps)
  | binding {i k : Nat} {d : Definition} {tag : Text} (hd : b.definitions[i]? = some d)
      (hj : d.bean.injectors[k]? = some (.bindSelf tag)) (inst : Instance) :
      Step b h (.mark (some i) (.begins (.injector k))) (runInjector b.context
        (b.wireAt (h ++ [.mark (some i) (.begins (.injector k))])) d.bean inst (.bindSelf tag))
  | callback {i : Nat} {d : Definition} {p : Part} {c : Callback}
      (hd : b.definitions[i]? = some d) (hc : d.bean.callback? p = some c) :
      Step b h (.mark (some i) (.begins p)) (perform b.context
        (b.wireAt (h ++ [.mark (some i) (.begins p)])) c.action)
  | init {i : Nat} {d : Definition} {init : Init} (hd : b.definitions[i]? = some d)
      (hinit : d.bean.init = some init) (inst : Instance) :
      Step b h (.mark (some i) (.begins .init)) (runInit d.bean init inst)

/-- An act that may come next while all goes well. -/
inductive Proceeds (b : Builder) : List Act → Act → Prop where
  | ask {h : List Act} {i : Nat} (hi : i < b.definitions.length)
      (hwired : ∀ j, b.state? h j ≠ some .wired) : Proceeds b h (.ask i)
  | receive (h : List Act) (i : Nat) : Proceeds b h (.receive i)
  | enter (h : List Act) (i : Nat) (name : String) : Proceeds b (h ++ [.ask i]) (.enter i name)
  | mark (h : List Act) (owner : Option Nat) (m : Mark) : Proceeds b h (.mark owner m)
  | leave (h : List Act) (i : Nat) : Proceeds b h (.leave i true)
  | complete (h : List Act) (i : Nat) (inst : Instance) : Proceeds b h (.complete i inst)
  | takeLinks (h : List Act) (i : Nat) : Proceeds b h (.takeLinks i)
  | push (h : List Act) (f : Frame) : Proceeds b h (.push f)
  | pop (h : List Act) : Proceeds b h .pop

/-- A lookup is refused as soon as it comes to a definition: that has failed, or it has no instance
and cannot be wired now. -/
inductive Refuses (b : Builder) : List Act → Nat → ContainerError → Prop where
  | failed {h : List Act} {i : Nat} {d : Definition} (hd : b.definitions[i]? = some d)
      (hstate : b.state? h i = some .failed) :
      Refuses b (h ++ [.ask i]) i (.wiringFailed d.bean.profile.name)
  | busy {h : List Act} {i : Nat} {d : Definition} {slot : Slot} (hd : b.definitions[i]? = some d)
      (hslot : (b.reached h).slots[i]? = some slot) (hinst : slot.inst = none)
      (hfailed : slot.state ≠ .failed) (hroom : slot.state = .unwired → slot.toBuild = true →
        b.definitions.length ≤ (b.reached h).wirings.length) :
      Refuses b (h ++ [.ask i]) i
        (.circularDependency ((b.reached h).trace ++ [d.bean.profile.name]))

/-- Properties of the histories of refreshing: of those in which all has gone well, of those in which
a lookup has just given an error, and of those in which a step has just failed. They stand each act,
and each step whose lookups respect them. -/
structure Conduct (b : Builder) (good : List Act → Prop)
    (given failed : ContainerError → List Act → Prop) : Prop extends Upkeep good given where
  start : good []
  proceed : ∀ {h a}, b.Proceeds h a → good h → good (h ++ [a])
  invented : ∀ {e h}, b.Invents e → good h → given e h
  weaken : ∀ {e h}, failed e h → given e h
  /-- A callback forwards the errors of lookups, or all is well again after them. -/
  pass : ∀ {h i d p c}, b.definitions[i]? = some d → d.bean.callback? p = some c →
    c.Forwards b.context (b.wireAt (h ++ [.mark (some i) (.begins p)])) b.assembly
        (h ++ [.mark (some i) (.begins p)]) ∨
      ∀ e k, given e (h ++ [.mark (some i) (.begins p)] ++ k) →
        good (h ++ [.mark (some i) (.begins p)] ++ k)
  step : ∀ {h a} {α : Type} {x : Wiring α}, b.Step h a x →
    x.Meets b.assembly (h ++ [a]) (Ends good given) →
      x.Meets b.assembly (h ++ [a]) (Ends good failed)
  undo : ∀ {e h a}, a.Undoes e → failed e h → failed e (h ++ [a])
  refuse : ∀ {e h i}, b.Refuses h i e → (∀ a ∈ h, ¬ a.IsLinking) → good h →
    given e (h ++ [.refuse i e])
  passOn : ∀ {e h i a}, a.Drops i → (∀ c ∈ h ++ [a], ¬ c.IsLinking) → failed e (h ++ [a]) →
    given e (h ++ [a] ++ [.refuse i e])

/-! ## Where a history stands -/

/-- The definitions are being wired: of the chain, and of the definition that may wait for its init
callback. -/
structure Underway (b : Builder) (chain : List Frame) (pending : Option Nat) (h : List Act) :
    Prop where
  chain : (b.reached h).chain = chain
  wired : ∀ j, b.state? h j = some .wired → pending = some j
  unlinked : ∀ a ∈ h, ¬ a.IsLinking

variable {b : Builder} {chain : List Frame} {pending : Option Nat} {h : List Act} {a : Act}
  {i : Nat} {e : ContainerError}

theorem underway_nil : b.Underway [] none [] where
  chain := rfl
  wired j hj := by
    rw [state?_nil (state?_isSome.1 (Option.isSome_of_eq_some hj))] at hj
    cases hj
  unlinked := by simp

theorem unlinked_snoc (hu : ∀ c ∈ h, ¬ c.IsLinking) (ha : ¬ a.IsLinking) :
    ∀ c ∈ h ++ [a], ¬ c.IsLinking := by
  simpa [or_imp, forall_and] using ⟨hu, ha⟩

theorem Underway.once (hu : b.Underway chain pending h) (hmove : a.moves? = none)
    (hchain : ((b.reached h).act a).chain = (b.reached h).chain) (ha : ¬ a.IsLinking) :
    b.Underway chain pending (h ++ [a]) where
  chain := by
    rw [reached_append]
    exact hchain.trans hu.chain
  wired j hj := hu.wired j ((state?_snoc_of_none hmove).symm.trans hj)
  unlinked := unlinked_snoc hu.unlinked ha

theorem Underway.note (hu : b.Underway chain pending h) (e : Event) :
    b.Underway chain pending (h ++ [.note e]) :=
  hu.once rfl rfl id

/-- A definition goes to another state. -/
theorem Underway.move {chain' : List Frame} {pending' : Option Nat} {st : State}
    (hu : b.Underway chain pending h) (hmove : a.moves? = some (i, st))
    (hchain : ((b.reached h).act a).chain = chain') (ha : ¬ a.IsLinking)
    (hst : st = .wired → pending' = some i)
    (hpending : ∀ j, j ≠ i → pending = some j → pending' = some j) :
    b.Underway chain' pending' (h ++ [a]) where
  chain := by
    rw [reached_append]
    exact hchain
  wired j hj := by
    rw [state?_append_singleton, hmove] at hj
    dsimp only at hj
    split at hj
    · rename_i hij
      obtain ⟨_, -, rfl⟩ := Option.map_eq_some_iff.1 hj
      exact hij ▸ hst rfl
    · rename_i hij
      exact hpending j (Ne.symm hij) (hu.wired j hj)
  unlinked := unlinked_snoc hu.unlinked ha

theorem Underway.ne_wired (hu : b.Underway chain none h) (j : Nat) : b.state? h j ≠ some .wired :=
  fun hj => nomatch hu.wired j hj

theorem Underway.wireAt (hu : b.Underway chain pending h) : b.wireAt h =
    wire b.context (b.definitions.length - (chain.filterMap (·.wires)).length) := by
  rw [Builder.wireAt, Assembly.wirings, hu.chain]

/-- All definitions have their instances. -/
def Equipped (b : Builder) (h : List Act) : Prop :=
  ∀ i < b.definitions.length, ∃ inst, (b.reached h).instance? i = some inst

theorem Equipped.once (hs : b.Equipped h) (ha : a.moves? = none) : b.Equipped (h ++ [a]) := by
  intro i hi
  rw [reached_append, Assembly.after_cons, Assembly.after_nil, Assembly.instance?_act]
  split
  · cases ha
  · exact hs i hi

/-- The definitions are being linked. -/
structure Furnished (b : Builder) (chain : List Frame) (h : List Act) : Prop where
  chain : (b.reached h).chain = chain
  wired : ∀ j, b.state? h j ≠ some .wired
  equipped : b.Equipped h

theorem Furnished.once {chain' : List Frame} (hf : b.Furnished chain h) (hmove : a.moves? = none)
    (hchain : ((b.reached h).act a).chain = chain') : b.Furnished chain' (h ++ [a]) where
  chain := by
    rw [reached_append]
    exact hchain
  wired j := by
    rw [state?_snoc_of_none hmove]
    exact hf.wired j
  equipped := hf.equipped.once hmove

/-- A lookup that has come to a definition gives an error: it is refused at once, or the definition
has failed now. -/
def Denies (b : Builder) (good : List Act → Prop) (failed : ContainerError → List Act → Prop)
    (i : Nat) (e : ContainerError) (h : List Act) : Prop :=
  (good h ∧ b.Refuses h i e) ∨ ∃ h' a, h = h' ++ [a] ∧ a.Drops i ∧ failed e h

/-- A place in which lookups are made: what is true of the histories there, and what wires the
definitions that are found. -/
structure Setting (b : Builder) (good : List Act → Prop)
    (given : ContainerError → List Act → Prop) (here : List Act → Prop)
    (inner : Nat → Wiring Instance) : Prop extends
    Lookups b.assembly b.context inner (fun h => good h ∧ here h) (fun e h => given e h ∧ here h) where
  wireAt : ∀ {h}, here h → b.wireAt h = inner
  note : ∀ {h} (e), here h → here (h ++ [.note e])

end Builder

open Builder

theorem ends_and_iff {α : Type} {ok here : List Act → Prop} {bad : ContainerError → List Act → Prop}
    {r : Except ContainerError α} {h : List Act} :
    Ends (fun h => ok h ∧ here h) (fun e h => bad e h ∧ here h) r h ↔ Ends ok bad r h ∧ here h := by
  cases r <;> rfl

namespace Builder.Conduct

variable {b : Builder} {good : List Act → Prop} {given failed : ContainerError → List Act → Prop}
  (hc : b.Conduct good given failed)

include hc

/-! ## Steps and parts -/

section

variable {here : List Act → Prop} {inner : Nat → Wiring Instance} {h : List Act} {a : Act} {i : Nat}
  {p : Part} {α β : Type}

theorem step_ends {x : Wiring α} (hstep : b.Step h a x)
    (hx : x.Meets b.assembly (h ++ [a])
      (Ends (fun h => good h ∧ here h) fun e h => given e h ∧ here h)) :
    x.Meets b.assembly (h ++ [a]) fun r h' => Ends good failed r h' ∧ here h' := by
  have hboth := hx.mono fun _ _ hr => ends_and_iff.1 hr
  exact (hc.step hstep (hboth.mono fun _ _ hr => hr.1)).and (hboth.mono fun _ _ hr => hr.2)

/-- A callback runs as a part of a definition. -/
theorem callback_ends (hs : b.Setting good given here inner) {d : Definition} {c : Callback}
    (hd : b.definitions[i]? = some d) (hcb : d.bean.callback? p = some c)
    (hok : good (h ++ [.mark (some i) (.begins p)])) (hhere : here (h ++ [.mark (some i) (.begins p)]))
    (phase : Phase) (handle : Handle) :
    (runCallback b.context inner phase handle c).Meets b.assembly
      (h ++ [.mark (some i) (.begins p)]) fun r h' => Ends good failed r h' ∧ here h' := by
  have hinner := hs.wireAt hhere
  subst hinner
  have hpass := hc.pass (h := h) hd hcb
  have haction := hc.step_ends (.callback hd hcb) (hs.perform c.action ⟨hok, hhere⟩
    (hpass.imp And.left fun hwell e k hgiven => ⟨hwell e k hgiven.1, hgiven.2⟩)
    fun e k he hok => ⟨hc.invented ⟨d, List.mem_of_getElem? hd, p, c, hcb, he⟩ hok.1, hok.2⟩)
  refine (runCallback_ends hs.toUpkeep (haction.mono fun _ _ => ends_and_iff.2)
    (fun e h' hbad => ⟨hc.undo (.note ..) hbad.1, hs.note _ hbad.2⟩) (hpass.imp_right
      fun hwell e k hbad => ⟨hwell e k (hc.weaken hbad.1), hbad.2⟩)).mono fun _ _ => ends_and_iff.1

/-- An injector of a definition runs. -/
theorem runInjector_ends (hs : b.Setting good given here inner) {d : Definition} {k : Nat}
    {j : Injector} (hd : b.definitions[i]? = some d) (hj : d.bean.injectors[k]? = some j)
    (hok : good (h ++ [.mark (some i) (.begins (.injector k))]))
    (hhere : here (h ++ [.mark (some i) (.begins (.injector k))])) (inst : Instance) :
    (runInjector b.context inner d.bean inst j).Meets b.assembly
      (h ++ [.mark (some i) (.begins (.injector k))])
        fun r h' => Ends good failed r h' ∧ here h' := by
  cases j with
  | act c =>
    have hcb : d.bean.callback? (.injector k) = some c := by
      rw [Bean.callback?, hj]
      rfl
    refine meets_bind.2 ((hc.callback_ends hs hd hcb hok hhere .inject inst.handle).mono
      fun r h' hr => ?_)
    cases r with
    | ok u => exact (meets_pure _).2 hr
    | error e => exact hr
  | bindSelf tag =>
    have hinner := hs.wireAt hhere
    subst hinner
    refine hc.step_ends (.binding hd hj inst) ?_
    unfold runInjector
    dsimp only
    split
    · exact (meets_pure _).2 ⟨hok, hhere⟩
    · rename_i e _
      exact (meets_fail (.config e)).2 (hs.plain trivial ⟨hok, hhere⟩)

/-- A part of a definition runs. -/
theorem part_ends {x : Wiring α}
    (hmark : ∀ h m, m = .begins p ∨ m = .ends p → here h → here (h ++ [.mark (some i) m]))
    (hok : good h) (hhere : here h)
    (hx : good (h ++ [.mark (some i) (.begins p)]) → here (h ++ [.mark (some i) (.begins p)]) →
      x.Meets b.assembly (h ++ [.mark (some i) (.begins p)])
        fun r h' => Ends good failed r h' ∧ here h') :
    (part (some i) p x).Meets b.assembly h fun r h' => Ends good failed r h' ∧ here h' := by
  simp only [part, meets_bind, meets_once, meets_pure]
  refine (hx (hc.proceed (.mark ..) hok) (hmark _ _ (.inl rfl) hhere)).mono fun r h' hr => ?_
  cases r with
  | ok a => exact ⟨hc.proceed (.mark ..) hr.1, hmark _ _ (.inr rfl) hr.2⟩
  | error e => exact hr

/-- Parts of a definition run one after the other. -/
theorem inTurn_ends {kind : Nat → Part} {f : α → β → Wiring α} {bs : List β} (k : Nat) (a : α)
    (hmark : ∀ n h m, m = .begins (kind n) ∨ m = .ends (kind n) → here h →
      here (h ++ [.mark (some i) m]))
    (hok : good h) (hhere : here h)
    (hf : ∀ n b', bs[n]? = some b' → ∀ a h, good (h ++ [.mark (some i) (.begins (kind (k + n)))]) →
      here (h ++ [.mark (some i) (.begins (kind (k + n)))]) →
      (f a b').Meets b.assembly (h ++ [.mark (some i) (.begins (kind (k + n)))])
        fun r h' => Ends good failed r h' ∧ here h') :
    (inTurn (some i) kind f k a bs).Meets b.assembly h
      fun r h' => Ends good failed r h' ∧ here h' := by
  induction bs generalizing k a h with
  | nil => exact (meets_pure _).2 ⟨hok, hhere⟩
  | cons c rest ih =>
    refine meets_bind.2 ((hc.part_ends (hmark k) hok hhere (hf 0 c rfl a h)).mono fun r h' hr => ?_)
    cases r with
    | ok a =>
      refine ih (k + 1) a hr.1 hr.2 fun n b' hb' => ?_
      have := hf (n + 1) b' hb'
      rwa [Nat.add_comm n 1, ← Nat.add_assoc] at this
    | error e => exact hr

/-- A definition that has been entered is built. -/
theorem build_ends (hs : b.Setting good given here inner) {d : Definition} {name : String}
    (hd : b.definitions[i]? = some d)
    (hmark : ∀ h m, m.isLink = false → here h → here (h ++ [.mark (some i) m]))
    (hok : good (h ++ [.enter i name])) (hhere : here (h ++ [.enter i name])) :
    (build b.context inner (some i) d).Meets b.assembly (h ++ [.enter i name])
      fun r h' => Ends good failed r h' ∧ here h' := by
  have hmarks : ∀ {p : Part}, (Mark.begins p).isLink = false → ∀ h m,
      m = .begins p ∨ m = .ends p → here h → here (h ++ [.mark (some i) m]) := by
    rintro p hp h _ (rfl | rfl)
    · exact hmark h _ hp
    · exact hmark h _ (by cases p <;> exact hp)
  have hconstruct : (construct b.context inner (some i) d).Meets b.assembly (h ++ [.enter i name])
      fun r h' => Ends good failed r h' ∧ here h' := by
    cases hobject : d.object with
    | some inst =>
      rw [construct, hobject]
      exact hc.part_ends (hmarks rfl) hok hhere fun hok hhere => (meets_pure _).2 ⟨hok, hhere⟩
    | none =>
      have hfunction : construct b.context inner (some i) d =
          (supplyAll b.context inner d.bean.function >>= fun deps =>
            part (some i) .constructor
              (runConstructor d.bean d.bean.function.refusal deps)) := by
        rw [construct, hobject, Bean.function]
        cases d.bean.maker <;> rfl
      have hsupply := hc.step_ends (.parameters name hd hobject)
        (((hs.wireAt hhere).symm ▸ hs).supplyAll d.bean.function _ ⟨hok, hhere⟩)
      rw [hs.wireAt hhere] at hsupply
      rw [hfunction]
      refine meets_bind.2 (hsupply.mono fun r h' hr => ?_)
      cases r with
      | error e => exact hr
      | ok deps =>
        refine hc.part_ends (hmarks rfl) hr.1 hr.2 fun hok hhere => ?_
        exact hc.step_ends (.constructor hd hobject deps) (hs.runConstructor _ _ deps _ ⟨hok, hhere⟩)
  refine meets_bind.2 (hconstruct.mono fun r h' hr => ?_)
  cases r with
  | error e => exact hr
  | ok inst =>
    refine hc.inTurn_ends 0 inst (fun n => hmarks rfl) hr.1 hr.2 fun n j hj inst h hok hhere => ?_
    rw [Nat.zero_add] at hok hhere ⊢
    exact hc.runInjector_ends hs hd hj hok hhere inst

end

/-! ## Wiring -/

section

variable {chain : List Frame} {pending : Option Nat} {h : List Act} {i : Nat} {d : Definition}

/-- While definitions are being wired, notes and numbers change nothing. -/
theorem underway_upkeep (chain : List Frame) (pending : Option Nat) :
    Upkeep (fun h => good h ∧ b.Underway chain pending h)
      fun e h => given e h ∧ b.Underway chain pending h where
  plain he hok := ⟨hc.plain he hok.1, hok.2⟩
  calm he hok := ⟨hc.calm he hok.1, hok.2.note _⟩
  number taken hok := ⟨hc.number taken hok.1, hok.2.once rfl rfl id⟩
  lasting hbad hok := ⟨hc.lasting hbad.1 hok.1, hok.2⟩

theorem initialized_ends (hd : b.definitions[i]? = some d) (inst : Instance) (hok : good h)
    (hu : b.Underway chain pending h) :
    (initialized (some i) d.bean inst).Meets b.assembly h
      fun r h' => Ends good failed r h' ∧ b.Underway chain pending h' := by
  unfold initialized
  cases hinit : d.bean.init with
  | none => exact (meets_pure _).2 ⟨hok, hu⟩
  | some init =>
    refine hc.part_ends ?_ hok hu fun hok hu => ?_
    · rintro h _ (rfl | rfl) hu
      · exact hu.once rfl rfl (by simp [Act.IsLinking, Mark.isLink])
      · exact hu.once rfl rfl (by simp [Act.IsLinking, Mark.isLink])
    · exact hc.step_ends (.init hd hinit inst)
        ((hc.underway_upkeep chain pending).runInit _ init inst _ ⟨hok, hu⟩)

/-- A definition that is built comes to its end: it is ready, or it has failed. -/
theorem finish_ends (hd : b.definitions[i]? = some d) (inst : Instance) (hok : good h)
    (hu : b.Underway chain (some i) h) :
    (finish i d.bean inst).Meets b.assembly h
      fun r h' => Ends good (b.Denies good failed i) r h' ∧ b.Underway chain none h' := by
  refine meets_bind.2 (meets_attempt.2 ((hc.initialized_ends hd inst hok hu).mono fun r h' hr => ?_))
  obtain ⟨hr, hu⟩ := hr
  cases r with
  | ok inst' =>
    simp only [meets_bind, meets_once, meets_pure]
    exact ⟨hc.proceed (.complete ..) hr, hu.move rfl hu.chain id (by simp) (by simp [eq_comm])⟩
  | error e =>
    simp only [meets_bind, meets_once, meets_fail]
    exact ⟨.inr ⟨h', _, rfl, .abandon, hc.undo (.drop .abandon) hr⟩,
      hu.move rfl hu.chain id (by simp) (by simp [eq_comm])⟩

/-- A definition that is asked for is wired. -/
theorem wireNow_ends {inner : Nat → Wiring Instance} (hd : b.definitions[i]? = some d)
    (hs : b.Setting good given
      (b.Underway (chain ++ [⟨d.bean.profile.name, some i⟩]) none) inner)
    (hok : good (h ++ [.ask i])) (hu : b.Underway chain none (h ++ [.ask i])) :
    (wireNow b.context inner i d).Meets b.assembly (h ++ [.ask i])
      fun r h' => Ends good (b.Denies good failed i) r h' ∧ b.Underway chain none h' := by
  have hentered : b.Underway (chain ++ [⟨d.bean.profile.name, some i⟩]) none
      (h ++ [.ask i] ++ [.enter i d.bean.profile.name]) :=
    hu.move rfl (congrArg (· ++ _) hu.chain) id (by simp) (by simp)
  have hmark : ∀ h (m : Mark), m.isLink = false →
      b.Underway (chain ++ [⟨d.bean.profile.name, some i⟩]) none h →
      b.Underway (chain ++ [⟨d.bean.profile.name, some i⟩]) none (h ++ [.mark (some i) m]) :=
    fun h m hm hu => hu.once rfl rfl (by simp [Act.IsLinking, hm])
  simp only [wireNow, meets_bind, meets_once, meets_attempt]
  refine (hc.build_ends hs hd hmark (hc.proceed (.enter ..) hok) hentered).mono fun r h' hr => ?_
  obtain ⟨hr, hu⟩ := hr
  have hleft : ((b.reached h').act (.leave i false)).chain = chain ∧
      ((b.reached h').act (.leave i true)).chain = chain := by
    simp [Assembly.act, hu.chain]
  cases r with
  | ok inst =>
    simp only [meets_bind, meets_once]
    exact hc.finish_ends hd inst (hc.proceed (.leave ..) hr)
      (hu.move rfl hleft.2 id (by simp) (by simp))
  | error e =>
    simp only [meets_bind, meets_once, meets_fail]
    exact ⟨.inr ⟨h', _, rfl, .leave, hc.undo (.drop .leave) hr⟩,
      hu.move rfl hleft.1 id (by simp) (by simp)⟩

omit hc in
/-- A definition that is asked for has its instance, is wired now, or is refused. -/
theorem wireBy_ends {now : Definition → Wiring Instance} (hi : i < b.definitions.length)
    (hnow : ∀ d slot, b.definitions[i]? = some d → (b.reached h).slots[i]? = some slot →
      slot.inst = none → slot.state = .unwired → (now d).Meets b.assembly (h ++ [.ask i])
        fun r h' => Ends good (b.Denies good failed i) r h' ∧ b.Underway chain none h')
    (hok : good (h ++ [.ask i])) (hu : b.Underway chain none (h ++ [.ask i])) :
    (wireBy b.context now i).Meets b.assembly (h ++ [.ask i])
      fun r h' => Ends good (b.Denies good failed i) r h' ∧ b.Underway chain none h' := by
  have hd : b.context.definitions[i]? = some b.definitions[i] := List.getElem?_eq_getElem hi
  obtain ⟨slot, hslot⟩ : ∃ slot, (b.reached h).slots[i]? = some slot :=
    ⟨_, List.getElem?_eq_getElem (by rwa [length_reached])⟩
  have hslot' : (b.assembly.after (h ++ [.ask i])).slots[i]? = some slot := by
    rw [Assembly.after_append]
    exact hslot
  simp only [wireBy, meets_bind, meets_current, hd, hslot']
  split
  · exact (meets_pure _).2 ⟨hok, hu⟩
  · rename_i hinst
    split
    · rename_i hstate _
      exact hnow _ slot hd hslot hinst hstate
    · rename_i hstate
      refine (meets_fail _).2 ⟨.inl ⟨hok, .failed hd ?_⟩, hu⟩
      rw [state?, Assembly.state?, hslot, Option.map_some, hstate]
    · rename_i hfailed hunwired
      simp only [circular, meets_bind, meets_current, meets_fail]
      refine ⟨.inl ⟨hok, ?_⟩, hu⟩
      rw [Assembly.after_append]
      exact .busy hd hslot hinst hfailed fun hstate hbuild => (hunwired hstate hbuild).elim

/-- A lookup asks for a definition, and is given its instance or an error. -/
theorem fetch_ends {wire : Nat → Wiring Instance} (hi : i < b.definitions.length)
    (hwire : ∀ h, good (h ++ [.ask i]) → b.Underway chain none (h ++ [.ask i]) →
      (wire i).Meets b.assembly (h ++ [.ask i])
        fun r h' => Ends good (b.Denies good failed i) r h' ∧ b.Underway chain none h') :
    (fetch wire i).Upholds b.assembly (fun h => good h ∧ b.Underway chain none h)
      fun e h => given e h ∧ b.Underway chain none h := by
  intro h ⟨hok, hu⟩
  simp only [fetch, meets_bind, meets_once, meets_attempt]
  refine (hwire h (hc.proceed (.ask hi hu.ne_wired) hok) (hu.once rfl rfl id)).mono fun r h' hr => ?_
  obtain ⟨hr, hu⟩ := hr
  cases r with
  | ok inst =>
    simp only [meets_bind, meets_once, meets_pure]
    exact ⟨hc.proceed (.receive ..) hr, hu.once rfl rfl id⟩
  | error e =>
    simp only [meets_bind, meets_once, meets_fail]
    refine ⟨?_, hu.once rfl rfl id⟩
    rcases hr with ⟨hok, hr⟩ | ⟨h₁, a, rfl, ha, hr⟩
    · exact hc.refuse hr hu.unlinked hok
    · exact hc.passOn ha hu.unlinked hr

/-- Definitions are wired at every depth, and the depth is that which the chain leaves. -/
theorem setting_wire (depth : Nat) (chain : List Frame)
    (hdepth : b.definitions.length - (chain.filterMap (·.wires)).length = depth) :
    b.Setting good given (b.Underway chain none) (wire b.context depth) := by
  induction depth generalizing chain with
  | zero =>
    refine ⟨⟨hc.underway_upkeep chain none, fun i hi => hc.fetch_ends hi fun h hok hu => ?_⟩,
      fun hu => hu.wireAt.trans (by rw [hdepth]), fun e hu => hu.note e⟩
    refine wireBy_ends hi (fun d slot hd hslot hinst hstate => ?_) hok hu
    simp only [circular, meets_bind, meets_current, meets_fail]
    refine ⟨.inl ⟨hok, ?_⟩, hu⟩
    rw [Assembly.after_append]
    refine .busy hd hslot hinst (by simp [hstate]) fun _ _ => ?_
    have hchain : (b.reached h).chain = chain := by
      rw [← hu.chain, reached_append]
      rfl
    rw [Assembly.wirings, hchain]
    omega
  | succ depth ih =>
    refine ⟨⟨hc.underway_upkeep chain none, fun i hi => hc.fetch_ends hi fun h hok hu => ?_⟩,
      fun hu => hu.wireAt.trans (by rw [hdepth]), fun e hu => hu.note e⟩
    refine wireBy_ends hi (fun d slot hd hslot hinst hstate => ?_) hok hu
    refine hc.wireNow_ends hd (ih _ ?_) hok hu
    rw [List.filterMap_append, List.length_append]
    exact (Nat.sub_add_eq _ _ 1).trans (by rw [hdepth, Nat.add_sub_cancel])

theorem wireEach_ends {is : List Nat} (his : ∀ i ∈ is, i < b.definitions.length) (hok : good h)
    (hu : b.Underway [] none h) :
    (wireEach b.context is).Meets b.assembly h
      fun r h' => Ends good given r h' ∧ b.Underway [] none h' := by
  induction is generalizing h with
  | nil => exact (meets_pure _).2 ⟨hok, hu⟩
  | cons i rest ih =>
    obtain ⟨hi, hrest⟩ := List.forall_mem_cons.1 his
    refine meets_bind.2 (((hc.setting_wire _ [] rfl).fetch i hi h ⟨hok, hu⟩).mono fun r h' hr => ?_)
    cases r with
    | ok inst => exact ih hrest hr.1 hr.2
    | error e => exact hr

end

/-! ## Linking -/

section

variable {chain : List Frame} {h : List Act}

/-- A lookup asks for a definition, and is given its instance. -/
theorem setting_linking (chain : List Frame) :
    b.Setting good given (b.Furnished chain)
      (wire b.context (b.definitions.length - (chain.filterMap (·.wires)).length)) where
  plain he hok := ⟨hc.plain he hok.1, hok.2⟩
  calm he hok := ⟨hc.calm he hok.1, hok.2.once rfl hok.2.chain⟩
  number taken hok := ⟨hc.number taken hok.1, hok.2.once rfl hok.2.chain⟩
  lasting hbad hok := ⟨hc.lasting hbad.1 hok.1, hok.2⟩
  fetch i hi h hok := by
    obtain ⟨inst, hinst⟩ := hok.2.equipped i hi
    have hasked := hok.2.once (a := .ask i) rfl hok.2.chain
    refine (fetch_of_instance? hi hinst _).2 ?_
    exact ⟨hc.proceed (.receive ..) (hc.proceed (.ask hi hok.2.wired) hok.1),
      hasked.once rfl hasked.chain⟩
  wireAt hf := by rw [Builder.wireAt, Assembly.wirings, hf.chain]
  note e hf := hf.once rfl hf.chain

theorem runLinks_ends {i : Nat} {d : Definition} {f : Frame} (hd : b.definitions[i]? = some d)
    (hwires : f.wires = none) (handle : Handle) (hok : good h) (hf : b.Furnished [f] h) :
    (runLinks b.context (wireBean b.context) (some i) handle d.bean.links).Meets b.assembly h
      fun r h' => Ends good failed r h' ∧ b.Furnished [f] h' := by
  have hs := hc.setting_linking [f]
  rw [List.filterMap_cons_none hwires, List.filterMap_nil, List.length_nil, Nat.sub_zero] at hs
  refine hc.inTurn_ends 0 () (fun _ h m _ hf => hf.once rfl hf.chain) hok hf
    fun n c hcb _ h hok hf => ?_
  rw [Nat.zero_add] at hok hf ⊢
  exact hc.callback_ends (p := .link n) hs hd hcb hok hf .link handle

theorem linkBean_ends (i : Nat) (hok : good h) (hf : b.Furnished [] h) :
    (linkBean b.context i).Meets b.assembly h
      fun r h' => Ends good failed r h' ∧ b.Furnished [] h' := by
  rw [linkBean, meets_bind, meets_current]
  dsimp only
  split
  · rename_i d slot hd hslot
    have htaken := hf.once (a := .takeLinks i) rfl hf.chain
    have hok := hc.proceed (.takeLinks h i) hok
    simp only [meets_bind, meets_once]
    split
    · have hpushed : b.Furnished [⟨d.bean.profile.name, none⟩]
          (h ++ [.takeLinks i] ++ [.push ⟨d.bean.profile.name, none⟩]) :=
        htaken.once rfl (congrArg (· ++ _) htaken.chain)
      refine (meets_within _).2 ((hc.runLinks_ends hd rfl _ (hc.proceed (.push ..) hok)
        hpushed).mono fun r h' hend => ?_)
      obtain ⟨hr, hf⟩ := hend
      refine ⟨?_, hf.once rfl (congrArg List.dropLast hf.chain)⟩
      cases r with
      | ok u => exact hc.proceed (.pop _) hr
      | error e => exact hc.undo .pop hr
    · exact (meets_pure _).2 ⟨hok, htaken⟩
  · exact (meets_pure _).2 ⟨hok, hf⟩

theorem linkEach_ends (is : List Nat) (hok : good h) (hf : b.Furnished [] h) :
    (linkEach b.context is).Meets b.assembly h
      fun r h' => Ends good failed r h' ∧ b.Furnished [] h' := by
  induction is generalizing h with
  | nil => exact (meets_pure _).2 ⟨hok, hf⟩
  | cons i rest ih =>
    refine meets_bind.2 ((hc.linkBean_ends i hok hf).mono fun r h' hr => ?_)
    cases r with
    | ok u => exact ih hr.1 hr.2
    | error e => exact hr

/-- All definitions are wired and linked. That fails where a lookup gives an error while no
definition is being wired, or where a link callback fails. -/
theorem assemble_ends : (assemble b.context).Meets b.assembly []
    (Ends (fun h => good h ∧ b.Furnished [] h) fun e h =>
      (given e h ∧ b.Underway [] none h) ∨ (failed e h ∧ b.Furnished [] h)) := by
  have hwired := (hc.wireEach_ends (fun i hi => List.mem_range.1 hi) hc.start underway_nil).and
    (wireEach_meets b.context.indices sound_nil)
  refine meets_bind.2 (hwired.mono fun r h hr => ?_)
  obtain ⟨⟨hr, hu⟩, ha, hready, -⟩ := hr
  cases r with
  | error e => exact .inl ⟨hr, hu⟩
  | ok u =>
    have hready : b.AllReady h := fun j hj => hready rfl j (List.mem_range.2 hj)
    have hf : b.Furnished [] h := ⟨hu.chain, hu.ne_wired, fun j hj =>
      Option.isSome_iff_exists.1 (ha.sound.lawful.isSome_instance? (hready j hj))⟩
    refine (hc.linkEach_ends _ hr hf).mono fun r h' hr => ?_
    cases r with
    | ok u => exact hr
    | error e => exact .inr hr

end

end Builder.Conduct

end ConfigGraph
