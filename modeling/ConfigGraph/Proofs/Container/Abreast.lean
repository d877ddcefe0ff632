import ConfigGraph.Container.Refresh
import ConfigGraph.Proofs.Container.Course
import ConfigGraph.Proofs.Container.Lookups

/-!
# Courses side by side

The same lookups, parts and callbacks may run in two places: in one assembly and another, with fewer
or more definitions around them, for one owner or another. They come to the same there
(`Wiring.Alike`) when the lookups are answered alike and the function that wires what they find does
(`Abreast`). What the histories of the two places have in common is a parameter: it has to stand
whatever is noted in both (`Abreast.silent`), and what a part needs beyond that is asked for where
parts run.
-/

namespace ConfigGraph

/-- Something that a lookup, a part or a call brings about. -/
inductive Event.IsWork : Event → Prop where
  | constructed (handle : Handle) (deps : List Supplied) : IsWork (.constructed handle deps)
  | constructorFailed (deps : List Supplied) : IsWork (.constructorFailed deps)
  | initialized (handle : Handle) : IsWork (.initialized handle)
  | acted (phase : Phase) (handle : Handle) (action : String)
      (outcome : Except ContainerError Outcome) : IsWork (.acted phase handle action outcome)
  | called (values : List Supplied) : IsWork (.called values)

/-- An act that notes work, or marks how a lookup goes. -/
inductive Act.IsSilent : Act → Prop where
  | note {e : Event} (he : e.IsWork) : IsSilent (.note e)
  | ask (i : Nat) : IsSilent (.ask i)
  | receive (i : Nat) : IsSilent (.receive i)
  | refuse (i : Nat) (e : ContainerError) : IsSilent (.refuse i e)

/-- A silent act leaves everything but the events as it is. -/
theorem Act.IsSilent.act_eq {a : Act} (ha : a.IsSilent) (s : Assembly) :
    s.act a = { s with events := (s.act a).events } := by
  cases ha <;> rfl

theorem Act.IsSilent.after_snoc {a : Act} (ha : a.IsSilent) (s : Assembly) (h : List Act) :
    s.after (h ++ [a]) = { s.after h with events := (s.after (h ++ [a])).events } := by
  rw [Assembly.after_append]
  exact ha.act_eq (s.after h)

namespace Wiring

variable {α β : Type} {s₀ t₀ : Assembly} {R : List Act → List Act → Prop}

/-- After the acts `h` and `k` two courses come to the same, and what relates histories relates those
at their ends. -/
def AlikeAt (s₀ t₀ : Assembly) (R : List Act → List Act → Prop) (h k : List Act)
    (x y : Wiring α) : Prop :=
  x.Meets s₀ h fun r h' => y.Meets t₀ k fun r' k' => r' = r ∧ R h' k'

/-- Two courses come to the same after any related histories, and these stay related. -/
def Alike (s₀ t₀ : Assembly) (R : List Act → List Act → Prop) (x y : Wiring α) : Prop :=
  ∀ h k, R h k → AlikeAt s₀ t₀ R h k x y

/-- What relates histories stands when a part of the one owner begins or ends in the first and the
part of the other owner does in the second. -/
def Marked (R : List Act → List Act → Prop) (owner owner' : Option Nat) : Prop :=
  ∀ h k m, R h k → R (h ++ [.mark owner m]) (k ++ [.mark owner' m])

namespace AlikeAt

variable {h k : List Act} {x y : Wiring α} {f g : α → Wiring β}

theorem pure (hR : R h k) (a : α) : AlikeAt s₀ t₀ R h k (Pure.pure a) (Pure.pure a) :=
  (meets_pure a).2 ((meets_pure a).2 ⟨rfl, hR⟩)

theorem fail (hR : R h k) (e : ContainerError) :
    AlikeAt s₀ t₀ R h k (Wiring.fail e : Wiring α) (Wiring.fail e) :=
  (meets_fail e).2 ((meets_fail e).2 ⟨rfl, hR⟩)

theorem once {a a' : Act} (hR : R (h ++ [a]) (k ++ [a'])) :
    AlikeAt s₀ t₀ R h k (Wiring.once a) (Wiring.once a') :=
  (meets_once a).2 ((meets_once a').2 ⟨rfl, hR⟩)

/-- Courses go on after others that come to the same, with a value of which something is known. What
relates the histories may change there. -/
theorem bind_of {Q : List Act → List Act → Prop} {good : α → Prop} (hx : AlikeAt s₀ t₀ Q h k x y)
    (hgood : x.Returns good) (hf : ∀ a, good a → ∀ h' k', Q h' k' → AlikeAt s₀ t₀ R h' k' (f a) (g a))
    (herror : ∀ h' k', Q h' k' → R h' k') : AlikeAt s₀ t₀ R h k (x >>= f) (y >>= g) := by
  refine meets_bind.2 (Meets.mono (Meets.and hx hgood.meets) fun r h' hend => ?_)
  obtain ⟨⟨hr, hQ⟩, hvalue⟩ := hend
  cases r with
  | ok a =>
    refine Meets.mono (hf a (hvalue a rfl) h' _ hQ) fun r h'' hend => ?_
    rw [meets_bind]
    unfold Meets
    rw [hr]
    exact hend
  | error e =>
    show (y >>= g).Meets t₀ k _
    rw [meets_bind]
    unfold Meets
    rw [hr]
    exact ⟨rfl, herror _ _ hQ⟩

/-- Courses go on after others that come to the same. -/
theorem bind {Q : List Act → List Act → Prop} (hx : AlikeAt s₀ t₀ Q h k x y)
    (hf : ∀ a h' k', Q h' k' → AlikeAt s₀ t₀ R h' k' (f a) (g a))
    (herror : ∀ h' k', Q h' k' → R h' k') : AlikeAt s₀ t₀ R h k (x >>= f) (y >>= g) :=
  have hgood : x.Returns fun _ => True := fun _ _ _ => trivial
  hx.bind_of hgood (fun a _ => hf a) herror

/-- Two courses that look at the assemblies. -/
theorem current {f g : Assembly → Wiring β}
    (hf : AlikeAt s₀ t₀ R h k (f (s₀.after h)) (g (t₀.after k))) :
    AlikeAt s₀ t₀ R h k (Wiring.current >>= f) (Wiring.current >>= g) := by
  refine meets_bind.2 (meets_current.2 (Meets.mono hf fun r h' hend => ?_))
  exact meets_bind.2 (meets_current.2 hend)

theorem attempt (hx : AlikeAt s₀ t₀ R h k x y) : AlikeAt s₀ t₀ R h k x.attempt y.attempt := by
  refine meets_attempt.2 (Meets.mono hx fun r h' hend => meets_attempt.2 ?_)
  exact Meets.mono hend fun r' k' hend' => ⟨congrArg Except.ok hend'.1, hend'.2⟩

theorem mono {Q : List Act → List Act → Prop} (hx : AlikeAt s₀ t₀ Q h k x y)
    (himp : ∀ h' k', Q h' k' → R h' k') : AlikeAt s₀ t₀ R h k x y :=
  Meets.mono hx fun _ _ hend => Meets.mono hend fun _ _ hend' => ⟨hend'.1, himp _ _ hend'.2⟩

/-- Where the first course ends, the second one has come to the same. -/
theorem meets (hx : AlikeAt s₀ t₀ R h k x y) : x.Meets s₀ h fun r h' =>
    ∃ k', (y.Meets t₀ k fun r' k'' => r' = r ∧ k'' = k') ∧ R h' k' :=
  Meets.mono hx fun _ _ => Meets.exists_end

end AlikeAt

namespace Alike

variable {x y : Wiring α} {f g : α → Wiring β}

theorem pure (a : α) : Alike s₀ t₀ R (Pure.pure a) (Pure.pure a) :=
  fun _ _ hR => .pure hR a

theorem fail (e : ContainerError) : Alike s₀ t₀ R (Wiring.fail e : Wiring α) (Wiring.fail e) :=
  fun _ _ hR => .fail hR e

theorem ofExcept (r : Except ContainerError α) :
    Alike s₀ t₀ R (Wiring.ofExcept r) (Wiring.ofExcept r) := by
  cases r with
  | ok a => exact .pure a
  | error e => exact .fail e

theorem once {a a' : Act} (hR : ∀ h k, R h k → R (h ++ [a]) (k ++ [a'])) :
    Alike s₀ t₀ R (Wiring.once a) (Wiring.once a') :=
  fun h k hhk => .once (hR h k hhk)

theorem bind (hx : Alike s₀ t₀ R x y) (hf : ∀ a, Alike s₀ t₀ R (f a) (g a)) :
    Alike s₀ t₀ R (x >>= f) (y >>= g) :=
  fun h k hR => (hx h k hR).bind (fun a => hf a) fun _ _ => id

theorem bind_of {good : α → Prop} (hx : Alike s₀ t₀ R x y) (hgood : x.Returns good)
    (hf : ∀ a, good a → Alike s₀ t₀ R (f a) (g a)) : Alike s₀ t₀ R (x >>= f) (y >>= g) :=
  fun h k hR => (hx h k hR).bind_of hgood (fun a ha => hf a ha) fun _ _ => id

theorem map (f : α → β) (hx : Alike s₀ t₀ R x y) : Alike s₀ t₀ R (f <$> x) (f <$> y) :=
  hx.bind fun a => .pure (f a)

theorem attempt (hx : Alike s₀ t₀ R x y) : Alike s₀ t₀ R x.attempt y.attempt :=
  fun h k hR => (hx h k hR).attempt

/-- What relates histories may be another thing while the bean is at the end of the chain. -/
theorem within {Q : List Act → List Act → Prop} (frame : Frame)
    (hpush : ∀ h k, R h k → Q (h ++ [.push frame]) (k ++ [.push frame]))
    (hpop : ∀ h k, Q h k → R (h ++ [.pop]) (k ++ [.pop])) (hx : Alike s₀ t₀ Q x y) :
    Alike s₀ t₀ R (Wiring.within frame x) (Wiring.within frame y) := by
  intro h k hR
  refine (meets_within _).2 (Meets.mono (hx _ _ (hpush h k hR)) fun r h' hend => ?_)
  refine (meets_within _).2 (Meets.mono hend fun r' k' hend' => ?_)
  exact ⟨hend'.1, hpop h' k' hend'.2⟩

theorem part {owner owner' : Option Nat} (hm : Marked R owner owner') (p : Part)
    (hx : Alike s₀ t₀ R x y) : Alike s₀ t₀ R (Wiring.part owner p x) (Wiring.part owner' p y) :=
  (once fun h k => hm h k _).bind fun _ => hx.bind fun a => (once fun h k => hm h k _).bind fun _ =>
    .pure a

theorem inTurn {owner owner' : Option Nat} (hm : Marked R owner owner') (kind : Nat → Part)
    {f g : α → β → Wiring α} {bs : List β} (hfg : ∀ b ∈ bs, ∀ a, Alike s₀ t₀ R (f a b) (g a b))
    (k : Nat) (a : α) :
    Alike s₀ t₀ R (Wiring.inTurn owner kind f k a bs) (Wiring.inTurn owner' kind g k a bs) := by
  induction bs generalizing k a with
  | nil => exact .pure a
  | cons b rest ih =>
    obtain ⟨hb, hrest⟩ := List.forall_mem_cons.1 hfg
    exact (part hm _ (hb a)).bind fun a => ih hrest (k + 1) a

end Alike

end Wiring

open Wiring

/-- Lookups in two contexts go side by side: the second context has more definitions, what relates
histories stands whatever is noted in both, and the functions that wire what is found do the
same. -/
structure Abreast (s₀ t₀ : Assembly) (R : List Act → List Act → Prop) (ctx ctx' : Context)
    (more : List Definition) (inner inner' : Nat → Wiring Instance) : Prop where
  widens : ctx.Widens ctx' more
  silent : ∀ h k a, a.IsSilent → R h k → R (h ++ [a]) (k ++ [a])
  inner : ∀ i < ctx.definitions.length, Alike s₀ t₀ R (inner i) (inner' i)

/-- Instances are made in two places with the same numbers. -/
structure MadeAlike (s₀ t₀ : Assembly) (R : List Act → List Act → Prop) : Prop where
  made : ∀ h k, R h k → (t₀.after k).made = (s₀.after h).made
  number : ∀ h k taken, R h k → R (h ++ [.number taken]) (k ++ [.number taken])

/-- Definitions of which none has a type have nothing to offer of it. -/
theorem gather_eq_nil {ctx : Context} {inner : Nat → Wiring Instance} {type : TypeId}
    {is : List Nat} (his : ∀ i ∈ is, ∃ p, ctx.profile? i = some p ∧
      (Lookup.every type).matches p = false) : gather ctx inner type is = pure [] := by
  induction is with
  | nil => rfl
  | cons i rest ih =>
    obtain ⟨⟨p, hp, hmatches⟩, hrest⟩ := List.forall_mem_cons.1 his
    have hnone : p.exports.find? (·.type == type) = none :=
      List.find?_eq_none.2 (List.any_eq_false.1 hmatches)
    rw [gather, hp, Option.bind_some, hnone]
    exact ih hrest

namespace Abreast

variable {s₀ t₀ : Assembly} {R : List Act → List Act → Prop} {ctx ctx' : Context}
  {more : List Definition} {inner inner' : Nat → Wiring Instance}
  (ha : Abreast s₀ t₀ R ctx ctx' more inner inner')

include ha

theorem fetch {i : Nat} (hi : i < ctx.definitions.length) :
    Alike s₀ t₀ R (fetch inner i) (fetch inner' i) := by
  refine (Alike.once fun h k => ha.silent h k _ (.ask i)).bind fun _ =>
    (ha.inner i hi).attempt.bind fun r => ?_
  cases r with
  | ok inst => exact (Alike.once fun h k => ha.silent h k _ (.receive i)).bind fun _ => .pure inst
  | error e => exact (Alike.once fun h k => ha.silent h k _ (.refuse i e)).bind fun _ => .fail e

theorem note {e : Event} (he : e.IsWork) : Alike s₀ t₀ R (Wiring.note e) (Wiring.note e) :=
  .once fun h k => ha.silent h k _ (.note he)

theorem locate {type : TypeId} {s : Selector} (hq : ctx.Same ctx' more (.one type s)) :
    Alike s₀ t₀ R (locate ctx inner type s) (locate ctx' inner' type s) := by
  have hlt : ∀ i ∈ ctx.candidates type s, i < ctx.definitions.length :=
    fun i => Context.mem_candidates_lt
  unfold ConfigGraph.locate
  rw [ha.widens.candidates hq]
  generalize ctx.candidates type s = is at hlt ⊢
  rcases is with _ | ⟨i, _ | ⟨j, rest⟩⟩
  · exact .fail _
  · have hi := hlt i (List.mem_singleton_self i)
    dsimp only
    rw [ha.widens.profile? hi]
    cases (ctx.profile? i).bind fun p => (p.export? type false).map (p.type, ·) with
    | none => exact .fail _
    | some found => exact (ha.fetch hi).bind fun inst => .pure (found.2, found.1, inst)
  · dsimp only
    rw [ha.widens.names hlt]
    exact .fail _

theorem getBean {type : TypeId} {s : Selector} (hq : ctx.Same ctx' more (.one type s)) :
    Alike s₀ t₀ R (getBean ctx inner type s) (getBean ctx' inner' type s) := by
  refine (ha.locate hq).bind fun found => ?_
  obtain ⟨e, own, inst⟩ := found
  dsimp only
  cases e.cast? own inst with
  | none => exact .fail _
  | some handle => exact .pure handle

theorem getEach {type : TypeId} {ss : List Selector}
    (hq : ∀ s ∈ ss, ctx.Same ctx' more (.one type s)) :
    Alike s₀ t₀ R (getEach ctx inner type ss) (getEach ctx' inner' type ss) := by
  induction ss with
  | nil => exact .pure []
  | cons s rest ih =>
    obtain ⟨hs, hrest⟩ := List.forall_mem_cons.1 hq
    exact (ha.getBean hs).bind fun handle => (ih hrest).bind fun handles =>
      .pure (handle :: handles)

/-- The other definitions have nothing to offer. -/
theorem gather {type : TypeId} (hq : ctx.Same ctx' more (.every type)) {is js : List Nat}
    (his : ∀ i ∈ is, i < ctx.definitions.length)
    (hjs : ∀ j ∈ js, ∃ d ∈ more, ctx'.profile? j = some d.bean.profile) :
    Alike s₀ t₀ R (gather ctx inner type is) (gather ctx' inner' type (is ++ js)) := by
  induction is with
  | nil =>
    have hnil : ConfigGraph.gather ctx' inner' type js = Pure.pure [] := by
      refine gather_eq_nil fun j hj => ?_
      obtain ⟨d, hd, hp⟩ := hjs j hj
      exact ⟨_, hp, hq d hd⟩
    show Alike s₀ t₀ R _ (ConfigGraph.gather ctx' inner' type js)
    rw [hnil]
    exact .pure []
  | cons i rest ih =>
    obtain ⟨hi, hrest⟩ := List.forall_mem_cons.1 his
    rw [List.cons_append]
    unfold ConfigGraph.gather
    rw [ha.widens.profile? hi]
    cases (ctx.profile? i).bind fun p =>
      (p.exports.find? (·.type == type)).map (p.type, ·) with
    | none => exact ih hrest
    | some found => exact (ha.fetch hi).bind fun inst => (ih hrest).bind fun handles => .pure _

theorem collectBeans {type : TypeId} {ss : List Selector}
    (hq : ∀ q, asksCollect type ss q → ctx.Same ctx' more q) :
    Alike s₀ t₀ R (collectBeans ctx inner type ss) (collectBeans ctx' inner' type ss) := by
  cases ss with
  | nil =>
    refine Alike.bind ?_ fun handles => ?_
    · rw [ha.widens.indices]
      exact ha.gather (hq _ rfl) (fun i => List.mem_range.1) fun j => ha.widens.profile?_more
    · cases handles with
      | nil => exact .fail _
      | cons handle rest => exact .pure (handle :: rest)
  | cons s rest => exact ha.getEach fun s hs => hq _ ⟨s, hs, rfl⟩

theorem supply {arg : Option Argument} {p : Param} (hq : ∀ q, p.Asks arg q → ctx.Same ctx' more q)
    (index : Nat) :
    Alike s₀ t₀ R (supply ctx inner index arg p) (supply ctx' inner' index arg p) := by
  induction p with
  | bean type =>
    rcases arg with _ | s | ss | tag
    · exact (ha.getBean (hq _ rfl)).map _
    · exact (ha.getBean (hq _ rfl)).map _
    · exact .fail _
    · exact .fail _
  | collect type =>
    rcases arg with _ | s | ss | tag
    · exact Alike.map _ (ha.collectBeans hq)
    · refine (ha.collectBeans fun q hs => hq q ?_).map _
      obtain ⟨s', hs', rfl⟩ := hs
      rw [List.mem_singleton.1 hs']
      rfl
    · exact (ha.collectBeans hq).map _
    · exact .fail _
  | option content ih =>
    unfold ConfigGraph.supply
    rw [ha.widens.available (p := content) hq]
    split
    · exact (ih hq).map _
    · exact .pure _
  | prop shape =>
    unfold ConfigGraph.supply
    rw [ha.widens.store]
    rcases arg with _ | s | ss | tag
    · exact .fail _
    · exact .fail _
    · exact .fail _
    · dsimp only
      cases ctx.store.bind (.tag tag.toList) shape with
      | ok bound => exact .pure _
      | error e => exact .fail _
  | container =>
    obtain ⟨hready, hmore⟩ := hq .container rfl
    unfold ConfigGraph.supply
    rw [hready]
    cases arg with
    | some found => exact .fail _
    | none =>
      dsimp only
      split
      · rename_i hctx
        rw [ha.widens.definitions, hmore hctx, List.append_nil]
        exact .pure _
      · exact .fail _

theorem supplyFrom {args : List Argument} {ps : List Param} (index : Nat)
    (hq : ∀ q, asksFrom args index ps q → ctx.Same ctx' more q) :
    Alike s₀ t₀ R (supplyFrom ctx inner args index ps) (supplyFrom ctx' inner' args index ps) := by
  induction ps generalizing index with
  | nil => exact .pure []
  | cons p rest ih =>
    exact (ha.supply (fun q hp => hq q (.inl hp)) index).bind fun value =>
      (ih (index + 1) fun q hrest => hq q (.inr hrest)).bind fun values => .pure (value :: values)

theorem supplyAll {f : Function} (hq : ∀ q, f.Asks q → ctx.Same ctx' more q) :
    Alike s₀ t₀ R (supplyAll ctx inner f) (supplyAll ctx' inner' f) := by
  refine (ha.supplyFrom 0 hq).bind fun values => ?_
  split
  · exact .fail _
  · exact .pure values

end Abreast

section

variable {s₀ t₀ : Assembly} {R : List Act → List Act → Prop} {ctx ctx' : Context}
  {more : List Definition} {inner inner' : Nat → Wiring Instance}

mutual

theorem Abreast.perform (ha : Abreast s₀ t₀ R ctx ctx' more inner inner')
    (htrace : ∀ h k, R h k → (t₀.after k).trace = (s₀.after h).trace) :
    ∀ a : Action, (∀ q, a.Asks q → ctx.Same ctx' more q) →
      Alike s₀ t₀ R (perform ctx inner a) (perform ctx' inner' a)
  | .get type s, hq => (ha.getBean (hq _ rfl)).map _
  | .collect type ss, hq => (ha.collectBeans hq).map _
  | .provides type s, hq => by
    unfold ConfigGraph.perform
    rw [ha.widens.provides (hq _ rfl)]
    exact .pure _
  | .providesAny type, hq => by
    unfold ConfigGraph.perform
    rw [ha.widens.providesAny (hq _ rfl)]
    exact .pure _
  | .prop key, _ => by
    unfold ConfigGraph.perform
    rw [ha.widens.store]
    exact .pure _
  | .keys, _ => by
    unfold ConfigGraph.perform
    rw [ha.widens.store]
    exact .pure _
  | .resolve text, _ => by
    unfold ConfigGraph.perform
    rw [ha.widens.store]
    exact .ofExcept _
  | .bind start shape, _ => by
    unfold ConfigGraph.perform
    rw [ha.widens.store]
    exact .ofExcept _
  | .trace, _ => fun h k hR => .current (by
    rw [htrace h k hR]
    exact .pure hR _)
  | .container, hq => by
    unfold ConfigGraph.perform
    rw [(hq .container rfl).1]
    exact .pure _
  | .fail message, _ => .fail _
  | .call f, hq => (ha.supplyAll hq).bind fun values => (ha.note (.called values)).bind fun _ => by
    cases f.refusal with
    | none => exact .pure _
    | some text => exact .pure _
  | .script s, hq => ha.follow htrace s hq

theorem Abreast.follow (ha : Abreast s₀ t₀ R ctx ctx' more inner inner')
    (htrace : ∀ h k, R h k → (t₀.after k).trace = (s₀.after h).trace) :
    ∀ s : Script, (∀ q, s.Asks q → ctx.Same ctx' more q) →
      Alike s₀ t₀ R (follow ctx inner s) (follow ctx' inner' s)
  | .done, _ => .pure _
  | .fail e, _ => .fail e
  | .ask a next, hq => (ha.perform htrace a fun q h => hq q (.inl h)).attempt.bind fun outcome =>
    ha.follow htrace (next outcome) fun q h => hq q (.inr ⟨outcome, h⟩)

end

end

namespace Abreast

variable {s₀ t₀ : Assembly} {R : List Act → List Act → Prop} {ctx ctx' : Context}
  {more : List Definition} {inner inner' : Nat → Wiring Instance}
  (ha : Abreast s₀ t₀ R ctx ctx' more inner inner')
  (htrace : ∀ h k, R h k → (t₀.after k).trace = (s₀.after h).trace) {owner owner' : Option Nat}
  (hm : Marked R owner owner')

include ha htrace

theorem runCallback {c : Callback} (hq : ∀ q, c.action.Asks q → ctx.Same ctx' more q)
    (phase : Phase) (handle : Handle) :
    Alike s₀ t₀ R (runCallback ctx inner phase handle c) (runCallback ctx' inner' phase handle c) := by
  refine (ha.perform htrace c.action hq).attempt.bind fun outcome =>
    (ha.note (.acted ..)).bind fun _ => ?_
  cases outcome with
  | ok outcome => exact .pure ()
  | error e =>
    dsimp only
    split
    · exact .pure ()
    · exact .fail e

theorem runInjector {j : Injector} (hq : ∀ q, j.Asks q → ctx.Same ctx' more q) (b : Bean)
    (inst : Instance) :
    Alike s₀ t₀ R (runInjector ctx inner b inst j) (runInjector ctx' inner' b inst j) := by
  cases j with
  | act c => exact (ha.runCallback htrace hq .inject inst.handle).bind fun _ => .pure inst
  | bindSelf tag =>
    unfold ConfigGraph.runInjector
    rw [ha.widens.store]
    dsimp only
    cases ctx.store.bindAs inst.type.short.toList (.tag tag)
        (.record inst.type.short.toList b.shape) with
    | ok bound => exact .pure _
    | error e => exact .fail _

include hm

theorem runLinks {links : List Callback}
    (hq : ∀ c ∈ links, ∀ q, c.action.Asks q → ctx.Same ctx' more q) (handle : Handle) :
    Alike s₀ t₀ R (runLinks ctx inner owner handle links)
      (runLinks ctx' inner' owner' handle links) :=
  .inTurn hm .link (fun c hc _ => ha.runCallback htrace (hq c hc) .link handle) 0 ()

omit ha htrace in
/-- The init callback looks nothing up. -/
theorem initialized (hnote : ∀ h k e, e.IsWork → R h k → R (h ++ [.note e]) (k ++ [.note e]))
    (b : Bean) (inst : Instance) :
    Alike s₀ t₀ R (initialized owner b inst) (initialized owner' b inst) := by
  unfold ConfigGraph.initialized
  cases b.init with
  | none => exact .pure inst
  | some init =>
    refine .part hm .init ((Alike.once fun h k => hnote h k _ (.initialized _)).bind fun _ => ?_)
    cases init.failure with
    | none => exact .pure _
    | some text => exact .fail _

variable (hmade : MadeAlike s₀ t₀ R)

include hmade

omit htrace hm in
theorem makeInstance (b : Bean) (deps : List Supplied) :
    Alike s₀ t₀ R (makeInstance b deps) (makeInstance b deps) := by
  refine fun h k hR => .current ?_
  rw [hmade.made h k hR]
  exact ((Alike.once fun h k => hmade.number h k _).bind fun _ =>
    (ha.note (.constructed ..)).bind fun _ => .pure _) h k hR

omit htrace in
theorem construct {d : Definition} (hq : ∀ q, d.bean.Asks q → ctx.Same ctx' more q) :
    Alike s₀ t₀ R (construct ctx inner owner d) (construct ctx' inner' owner' d) := by
  unfold ConfigGraph.construct
  cases d.object with
  | some inst => exact .part hm .constructor (.pure inst)
  | none =>
    cases hmaker : d.bean.maker with
    | object => exact .part hm .constructor (ha.makeInstance hmade d.bean [])
    | constructor params refusal =>
      refine (ha.supplyAll fun q h => hq q (.maker hmaker h)).bind fun deps =>
        .part hm .constructor ?_
      cases refusal with
      | none => exact ha.makeInstance hmade d.bean deps
      | some text => exact (ha.note (.constructorFailed _)).bind fun _ => .fail _

/-- A definition is built in the same way in both places. -/
theorem build {d : Definition} (hq : ∀ q, d.bean.Asks q → ctx.Same ctx' more q) :
    Alike s₀ t₀ R (build ctx inner owner d) (build ctx' inner' owner' d) :=
  (ha.construct hm hmade hq).bind fun inst =>
    .inTurn hm .injector (fun _ hj inst =>
      ha.runInjector htrace (fun q h => hq q (.injector hj h)) d.bean inst) 0 inst

end Abreast

/-! ## Definitions that have instances -/

/-- A definition that has an instance is not wired again. -/
theorem wire_of_instance? {ctx : Context} {s₀ : Assembly} {h : List Act} {i : Nat}
    {inst : Instance} (hi : i < ctx.definitions.length)
    (hinst : (s₀.after h).instance? i = some inst) (depth : Nat)
    {post : Except ContainerError Instance → List Act → Prop} :
    (wire ctx depth i).Meets s₀ h post ↔ post (.ok inst) h := by
  obtain ⟨slot, hslot, hsome⟩ := Option.bind_eq_some_iff.1 hinst
  cases depth <;>
    simp only [wire, wireBy, meets_bind, meets_current, List.getElem?_eq_getElem hi, hslot, hsome,
      meets_pure]

/-- A lookup that comes to a definition with an instance is given it. -/
theorem fetch_of_instance? {ctx : Context} {s₀ : Assembly} {h : List Act} {i : Nat}
    {inst : Instance} (hi : i < ctx.definitions.length)
    (hinst : (s₀.after h).instance? i = some inst) (depth : Nat)
    {post : Except ContainerError Instance → List Act → Prop} :
    (fetch (wire ctx depth) i).Meets s₀ h post ↔
      post (.ok inst) (h ++ [.ask i] ++ [.receive i]) := by
  have hasked : (s₀.after (h ++ [.ask i])).instance? i = some inst := by
    rw [Assembly.after_append]
    exact hinst
  simp only [fetch, meets_bind, meets_once, meets_attempt]
  rw [wire_of_instance? hi hasked]
  simp only [meets_bind, meets_once, meets_pure]

/-- Definitions that have the same instances in both places are found alike. -/
theorem alike_wire {s₀ t₀ : Assembly} {R : List Act → List Act → Prop} (ctx ctx' : Context)
    {i : Nat} (hi : i < ctx.definitions.length) (hi' : i < ctx'.definitions.length)
    (hinst : ∀ h k, R h k → ∃ inst, (s₀.after h).instance? i = some inst ∧
      (t₀.after k).instance? i = some inst) (depth depth' : Nat) :
    Alike s₀ t₀ R (wire ctx depth i) (wire ctx' depth' i) := by
  intro h k hR
  obtain ⟨inst, hs, ht⟩ := hinst h k hR
  exact (wire_of_instance? hi hs depth).2 ((wire_of_instance? hi' ht depth').2 ⟨rfl, hR⟩)

end ConfigGraph
