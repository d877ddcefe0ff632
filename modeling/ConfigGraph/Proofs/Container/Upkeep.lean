import ConfigGraph.Container.Build
import ConfigGraph.Proofs.Container.Course
import ConfigGraph.Proofs.Container.Lookups

/-!
# What courses uphold

A course upholds a property of histories (`Wiring.Upholds`) when it keeps it where it gives a value,
and when something is known of each history in which it fails: both are parameters here. Lookups,
parameters, callbacks and parts uphold whatever stands the acts of their own and is upheld by the
function that wires what they find (`Upkeep`, `Lookups`).
-/

namespace ConfigGraph

/-- An error that says nothing of how far a definition has come. -/
def ContainerError.IsPlain : ContainerError → Prop
  | circularDependency _ | wiringFailed _ => False
  | _ => True

/-- Something that a lookup, a part or a call brings about, and that is not the failure of a
callback. -/
inductive Event.IsCalm : Event → Prop where
  | constructed (handle : Handle) (deps : List Supplied) : IsCalm (.constructed handle deps)
  | constructorFailed (deps : List Supplied) : IsCalm (.constructorFailed deps)
  | initialized (handle : Handle) : IsCalm (.initialized handle)
  | acted (phase : Phase) (handle : Handle) (action : String) (outcome : Outcome) :
      IsCalm (.acted phase handle action (.ok outcome))
  | called (values : List Supplied) : IsCalm (.called values)

namespace Wiring

variable {α β : Type}

/-- How a course ends: with a value in a history of one kind, or with an error in one of another. -/
def Ends (ok : List Act → Prop) (bad : ContainerError → List Act → Prop) :
    Except ContainerError α → List Act → Prop
  | .ok _, h => ok h
  | .error e, h => bad e h

/-- A course keeps a property of histories where it gives a value. -/
def Upholds (s₀ : Assembly) (ok : List Act → Prop) (bad : ContainerError → List Act → Prop)
    (x : Wiring α) : Prop :=
  ∀ h, ok h → x.Meets s₀ h (Ends ok bad)

/-- What a course does comes after what was done before it. -/
theorem meets_extends (x : Wiring α) (s₀ : Assembly) (h : List Act) :
    x.Meets s₀ h fun _ h' => h <+: h' :=
  List.prefix_append _ _

variable {s₀ : Assembly} {h : List Act} {ok : List Act → Prop}
  {bad : ContainerError → List Act → Prop}

theorem Ends.bind {x : Wiring α} {f : α → Wiring β} (hx : x.Meets s₀ h (Ends ok bad))
    (hf : ∀ a, (f a).Upholds s₀ ok bad) : (x >>= f).Meets s₀ h (Ends ok bad) := by
  refine meets_bind.2 (hx.mono fun r h' hr => ?_)
  cases r with
  | ok a => exact hf a h' hr
  | error e => exact hr

namespace Upholds

variable {x : Wiring α} {f : α → Wiring β}

theorem pure (a : α) : (Pure.pure a : Wiring α).Upholds s₀ ok bad :=
  fun _ hok => (meets_pure a).2 hok

theorem fail {e : ContainerError} (he : ∀ h, ok h → bad e h) :
    (Wiring.fail e : Wiring α).Upholds s₀ ok bad :=
  fun h hok => (meets_fail e).2 (he h hok)

theorem once {a : Act} (ha : ∀ h, ok h → ok (h ++ [a])) : (Wiring.once a).Upholds s₀ ok bad :=
  fun h hok => (meets_once a).2 (ha h hok)

theorem current : Wiring.current.Upholds s₀ ok bad :=
  fun _ hok => meets_current.2 hok

theorem bind (hx : x.Upholds s₀ ok bad) (hf : ∀ a, (f a).Upholds s₀ ok bad) :
    (x >>= f).Upholds s₀ ok bad :=
  fun h hok => Ends.bind (hx h hok) hf

theorem map (g : α → β) (hx : x.Upholds s₀ ok bad) : (g <$> x).Upholds s₀ ok bad :=
  hx.bind fun a => .pure (g a)

end Upholds

/-- Two properties, of histories in which all went well and of those in which a course failed, stand
the acts of lookups and parts. -/
structure Upkeep (ok : List Act → Prop) (bad : ContainerError → List Act → Prop) : Prop where
  plain : ∀ {e h}, e.IsPlain → ok h → bad e h
  calm : ∀ {e h}, Event.IsCalm e → ok h → ok (h ++ [.note e])
  number : ∀ {h} (taken), ok h → ok (h ++ [.number taken])
  /-- An error may be kept and given later, if all has gone well since. -/
  lasting : ∀ {e h k}, bad e h → ok (h ++ k) → bad e (h ++ k)

/-- The lookups of definitions uphold two properties that stand the acts of lookups and parts. -/
structure Lookups (s₀ : Assembly) (ctx : Context) (wire : Nat → Wiring Instance)
    (ok : List Act → Prop) (bad : ContainerError → List Act → Prop) : Prop extends
    Upkeep ok bad where
  fetch : ∀ i < ctx.definitions.length, (fetch wire i).Upholds s₀ ok bad

namespace Upkeep

variable (hu : Upkeep ok bad)

include hu

theorem fail {e : ContainerError} (he : e.IsPlain) :
    (Wiring.fail e : Wiring α).Upholds s₀ ok bad :=
  .fail fun _ => hu.plain he

theorem note {e : Event} (he : e.IsCalm) : (Wiring.note e).Upholds s₀ ok bad :=
  .once fun _ => hu.calm he

theorem makeInstance (b : Bean) (deps : List Supplied) :
    (makeInstance b deps).Upholds s₀ ok bad :=
  Upholds.current.bind fun _ => (Upholds.once fun _ => hu.number _).bind fun _ =>
    (hu.note (.constructed ..)).bind fun _ => .pure _

theorem runConstructor (b : Bean) (refusal : Option String) (deps : List Supplied) :
    (runConstructor b refusal deps).Upholds s₀ ok bad := by
  unfold ConfigGraph.runConstructor
  split
  · exact (hu.note (.constructorFailed _)).bind fun _ => hu.fail trivial
  · exact hu.makeInstance b deps

theorem runInit (b : Bean) (init : Init) (inst : Instance) :
    (runInit b init inst).Upholds s₀ ok bad := by
  refine (hu.note (.initialized _)).bind fun _ => ?_
  split
  · exact hu.fail trivial
  · exact .pure _

end Upkeep

namespace Lookups

variable {ctx : Context} {wire : Nat → Wiring Instance} (hl : Lookups s₀ ctx wire ok bad)

include hl

theorem locate (type : TypeId) (s : Selector) : (locate ctx wire type s).Upholds s₀ ok bad := by
  have hlt : ∀ i ∈ ctx.candidates type s, i < ctx.definitions.length :=
    fun i => Context.mem_candidates_lt
  unfold ConfigGraph.locate
  split
  · exact hl.fail trivial
  · rename_i i hi
    split
    · exact hl.fail trivial
    · exact (hl.fetch i (hlt i (hi ▸ List.mem_singleton_self i))).bind fun _ => .pure _
  · exact hl.fail trivial

theorem getBean (type : TypeId) (s : Selector) : (getBean ctx wire type s).Upholds s₀ ok bad := by
  refine (hl.locate type s).bind fun found => ?_
  dsimp only
  split
  · exact .pure _
  · exact hl.fail trivial

theorem getEach (type : TypeId) (ss : List Selector) :
    (getEach ctx wire type ss).Upholds s₀ ok bad := by
  induction ss with
  | nil => exact .pure _
  | cons s rest ih => exact (hl.getBean type s).bind fun _ => ih.bind fun _ => .pure _

theorem gather (type : TypeId) {is : List Nat} (his : ∀ i ∈ is, i < ctx.definitions.length) :
    (gather ctx wire type is).Upholds s₀ ok bad := by
  induction is with
  | nil => exact .pure _
  | cons i rest ih =>
    obtain ⟨hi, hrest⟩ := List.forall_mem_cons.1 his
    unfold ConfigGraph.gather
    split
    · exact ih hrest
    · exact (hl.fetch i hi).bind fun _ => (ih hrest).bind fun _ => .pure _

theorem collectBeans (type : TypeId) (ss : List Selector) :
    (collectBeans ctx wire type ss).Upholds s₀ ok bad := by
  unfold ConfigGraph.collectBeans
  split
  · refine (hl.gather type fun i => List.mem_range.1).bind fun hs => ?_
    split
    · exact hl.fail trivial
    · exact .pure _
  · exact hl.getEach type ss

theorem supply (index : Nat) (arg : Option Argument) (p : Param) :
    (supply ctx wire index arg p).Upholds s₀ ok bad := by
  induction p with
  | bean type =>
    unfold ConfigGraph.supply
    split
    · exact (hl.getBean type _).map _
    · exact (hl.getBean type _).map _
    · exact hl.fail trivial
  | collect type =>
    unfold ConfigGraph.supply
    split
    · exact (hl.collectBeans type _).map _
    · exact (hl.collectBeans type _).map _
    · exact (hl.collectBeans type _).map _
    · exact hl.fail trivial
  | option content ih =>
    unfold ConfigGraph.supply
    split
    · exact ih.map _
    · exact .pure _
  | prop shape =>
    unfold ConfigGraph.supply
    split
    · split
      · exact .pure _
      · exact hl.fail trivial
    · exact hl.fail trivial
    · exact hl.fail trivial
  | container =>
    unfold ConfigGraph.supply
    split
    · exact hl.fail trivial
    · split
      · exact .pure _
      · exact hl.fail trivial

theorem supplyFrom (args : List Argument) (index : Nat) (ps : List Param) :
    (supplyFrom ctx wire args index ps).Upholds s₀ ok bad := by
  induction ps generalizing index with
  | nil => exact .pure _
  | cons p rest ih => exact (hl.supply _ _ p).bind fun _ => (ih _).bind fun _ => .pure _

theorem supplyAll (f : Function) : (supplyAll ctx wire f).Upholds s₀ ok bad := by
  refine (hl.supplyFrom f.args 0 f.params).bind fun values => ?_
  split
  · exact hl.fail trivial
  · exact .pure _

end Lookups

end Wiring

open Wiring

/-! ## Callbacks -/

mutual

/-- An action may fail with an error that no lookup has given it and that says how far a definition
has come. -/
inductive Action.Invents (e : ContainerError) : Action → Prop where
  | script {s : Script} (h : s.Invents e) : Action.Invents e (.script s)

/-- One of several actions may do so, or they may fail with an error of their own. An error that has
come of an action and is given later is not of their own. -/
inductive Script.Invents (e : ContainerError) : Script → Prop where
  | fail : Script.Invents e (.fail e)
  | first {a : Action} {next : Except ContainerError Outcome → Script} (h : a.Invents e) :
      Script.Invents e (.ask a next)
  | next {a : Action} {next : Except ContainerError Outcome → Script}
      {outcome : Except ContainerError Outcome} (hne : outcome ≠ .error e)
      (h : (next outcome).Invents e) : Script.Invents e (.ask a next)

end

section

variable (ctx : Context) (wire : Nat → Wiring Instance) (s₀ : Assembly)

mutual

/-- An action that is performed after the acts `h` discards no error on the way. -/
def Action.Forwards : Action → List Act → Prop
  | .script s, h => s.Forwards h
  | _, _ => True

/-- Where one of several actions fails, nothing is done after it, and its error is given. -/
def Script.Forwards : Script → List Act → Prop
  | .done, _ | .fail _, _ => True
  | .ask a next, h => a.Forwards h ∧ (perform ctx wire a).Meets s₀ h fun outcome h' =>
      (∀ e, outcome = .error e → next outcome = .fail e) ∧ (next outcome).Forwards h'

end

/-- A callback that runs after the acts `h` discards no error. -/
def Callback.Forwards (c : Callback) (h : List Act) : Prop :=
  c.action.Forwards ctx wire s₀ h ∧ (c.swallow = true →
    (perform ctx wire c.action).Meets s₀ h fun outcome _ => ∀ e, outcome ≠ .error e)

end

section

variable {s₀ : Assembly} {ctx : Context} {wire : Nat → Wiring Instance} {ok : List Act → Prop}
  {bad : ContainerError → List Act → Prop}

mutual

/-- Errors are forwarded, or all is well again after them; and what is invented is no harm. -/
theorem Wiring.Lookups.perform (hl : Lookups s₀ ctx wire ok bad) :
    ∀ (a : Action) {h : List Act}, ok h →
      (a.Forwards ctx wire s₀ h ∨ ∀ e k, bad e (h ++ k) → ok (h ++ k)) →
      (∀ e k, a.Invents e → ok (h ++ k) → bad e (h ++ k)) →
      (ConfigGraph.perform ctx wire a).Meets s₀ h (Ends ok bad)
  | .get type s, _, hok, _, _ => (hl.getBean type s).map _ _ hok
  | .collect type ss, _, hok, _, _ => (hl.collectBeans type ss).map _ _ hok
  | .provides .., _, hok, _, _ | .providesAny _, _, hok, _, _ | .prop _, _, hok, _, _
  | .keys, _, hok, _, _ | .container, _, hok, _, _ => (meets_pure _).2 hok
  | .resolve text, _, hok, _, _ => by
    unfold ConfigGraph.perform
    rw [meets_ofExcept]
    cases Reference.resolve ctx.store text with
    | ok t => exact hok
    | error e => exact hl.plain trivial hok
  | .bind start shape, _, hok, _, _ => by
    unfold ConfigGraph.perform
    rw [meets_ofExcept]
    cases ctx.store.bind start shape with
    | ok v => exact hok
    | error e => exact hl.plain trivial hok
  | .trace, _, hok, _, _ => Upholds.current.bind (fun _ => .pure _) _ hok
  | .fail message, _, hok, _, _ => (meets_fail (.invocation message)).2 (hl.plain trivial hok)
  | .call f, _, hok, _, _ => (hl.supplyAll f).bind (fun _ => (hl.note (.called _)).bind fun _ => by
    split <;> exact .pure _) _ hok
  | .script s, _, hok, hpass, hinvents =>
    hl.follow s hok hpass fun e k he => hinvents e k (.script he)

theorem Wiring.Lookups.follow (hl : Lookups s₀ ctx wire ok bad) :
    ∀ (s : Script) {h : List Act}, ok h →
      (s.Forwards ctx wire s₀ h ∨ ∀ e k, bad e (h ++ k) → ok (h ++ k)) →
      (∀ e k, s.Invents e → ok (h ++ k) → bad e (h ++ k)) →
      (ConfigGraph.follow ctx wire s).Meets s₀ h (Ends ok bad)
  | .done, _, hok, _, _ => (meets_pure _).2 hok
  | .fail e, h, hok, _, hinvents => by
    have := hinvents e [] .fail
    rw [List.append_nil] at this
    exact (meets_fail e).2 (this hok)
  | .ask a next, h, hok, hpass, hinvents => by
    have hfirst := hl.perform a hok (hpass.imp_left And.left) fun e k he => hinvents e k (.first he)
    refine meets_bind.2 (meets_attempt.2 ?_)
    rcases hpass with hpass | hrecover
    · refine ((hfirst.and hpass.2).and (meets_extends _ _ _)).mono fun r h' hend => ?_
      obtain ⟨⟨hend, herror, hnext⟩, k, rfl⟩ := hend
      cases r with
      | ok o =>
        refine hl.follow (next (.ok o)) hend (.inl hnext) fun e k' he => ?_
        rw [List.append_assoc]
        exact hinvents e _ (.next (by simp) he)
      | error e =>
        dsimp only
        rw [herror e rfl]
        exact (meets_fail e).2 hend
    · refine (hfirst.and (meets_extends _ _ _)).mono fun r h' hend => ?_
      obtain ⟨hend, k, rfl⟩ := hend
      have hlater : ∀ e k', bad e (h ++ k ++ k') → ok (h ++ k ++ k') := fun e k' => by
        rw [List.append_assoc]
        exact hrecover e _
      cases r with
      | ok o =>
        refine hl.follow (next (.ok o)) hend (.inr hlater) fun e k' he => ?_
        rw [List.append_assoc]
        exact hinvents e _ (.next (by simp) he)
      | error e =>
        refine hl.follow (next (.error e)) (hrecover e k hend) (.inr hlater) fun e' k' he hok' => ?_
        by_cases hee : e' = e
        · -- the error of the action itself, which may have been kept
          subst hee
          exact hl.lasting hend hok'
        · rw [List.append_assoc] at hok' ⊢
          refine hinvents e' _ (.next (fun h => hee ?_) he) hok'
          cases h
          rfl

end

/-- A callback whose action fails notes the error, and then it is forwarded, or all is well again. -/
theorem runCallback_ends {given : ContainerError → List Act → Prop} (hu : Upkeep ok given)
    {phase : Phase} {handle : Handle} {c : Callback} {h : List Act}
    (haction : (perform ctx wire c.action).Meets s₀ h (Ends ok bad))
    (hnoted : ∀ e h', bad e h' →
      bad e (h' ++ [.note (.acted phase handle c.action.name (.error e))]))
    (hpass : c.Forwards ctx wire s₀ h ∨ ∀ e k, bad e (h ++ k) → ok (h ++ k)) :
    (runCallback ctx wire phase handle c).Meets s₀ h (Ends ok bad) := by
  have hswallow : (perform ctx wire c.action).Meets s₀ h fun outcome h' => ∀ e, outcome = .error e →
      c.swallow = true → ∀ k, bad e (h' ++ k) → ok (h' ++ k) := by
    rcases hpass with ⟨-, hpass⟩ | hrecover
    · by_cases hs : c.swallow = true
      · exact (hpass hs).mono fun _ _ hr e he => absurd he (hr e)
      · exact .of_forall fun _ _ _ _ hs' => absurd hs' hs
    · refine (meets_extends _ _ _).mono fun _ _ hprefix e _ _ k hbad => ?_
      obtain ⟨k', rfl⟩ := hprefix
      rw [List.append_assoc] at hbad ⊢
      exact hrecover e _ hbad
  simp only [runCallback, Wiring.note, meets_bind, meets_attempt, meets_once]
  refine (haction.and hswallow).mono fun r h' hboth => ?_
  obtain ⟨hend, hr⟩ := hboth
  cases r with
  | ok o => exact (meets_pure _).2 (hu.calm (.acted ..) hend)
  | error e =>
    dsimp only
    split
    · rename_i hs
      exact (meets_pure _).2 (hr e rfl hs _ (hnoted e h' hend))
    · exact (meets_fail e).2 (hnoted e h' hend)

end

end ConfigGraph
