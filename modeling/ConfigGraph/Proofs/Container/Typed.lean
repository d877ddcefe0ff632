import ConfigGraph.Proofs.Container.Cycles
import ConfigGraph.Proofs.Container.Singletons

/-!
# Instances have the types of their beans

Whatever its parameters are given and whatever its callbacks do, building a bean gives an instance
of the type of the bean (`build_returns`), so the instance with which a definition becomes ready is
of that type, in all that wiring does (`alike_wire_fitting`). So it is for the ready definitions at
any time while a builder is refreshed and in its container (`Builder.Stage.typed`).
-/

namespace ConfigGraph

open Wiring

variable {ctx : Context} {inner : Nat → Wiring Instance} {owner : Option Nat} {d : Definition}
  {b : Bean} {inst : Instance} {type : TypeId} {i : Nat}

namespace Context

/-- The objects of a context have the types of their beans. -/
def ObjectsTyped (ctx : Context) : Prop :=
  ∀ d ∈ ctx.definitions, ∀ inst, d.object = some inst → inst.type = d.bean.profile.type

/-- When the act makes a definition ready, the instance is of the type of the bean. -/
def Fits (ctx : Context) (a : Act) : Prop :=
  ∀ i inst d, a = .complete i inst → ctx.definitions[i]? = some d → inst.type = d.bean.profile.type

/-- A history next to itself, in which definitions have become ready with instances of their types.
-/
def Fitting (ctx : Context) (h k : List Act) : Prop :=
  k = h ∧ ∀ a ∈ h, ctx.Fits a

/-- The instances of ready definitions are of the types of their beans. -/
def Typed (ctx : Context) (s : Assembly) : Prop :=
  ∀ i d inst, ctx.definitions[i]? = some d → s.instance? i = some inst →
    inst.type = d.bean.profile.type

theorem Fitting.snoc {h k : List Act} {a : Act} (hR : ctx.Fitting h k) (ha : ctx.Fits a) :
    ctx.Fitting (h ++ [a]) (k ++ [a]) := by
  obtain ⟨rfl, hfits⟩ := hR
  exact ⟨rfl, List.forall_mem_append.2 ⟨hfits, List.forall_mem_singleton.2 ha⟩⟩

theorem fits_of_ne {a : Act} (ha : ∀ i inst, a ≠ .complete i inst) : ctx.Fits a :=
  fun i inst _ h => absurd h (ha i inst)

theorem Typed.act {s : Assembly} {a : Act} (ht : ctx.Typed s) (ha : ctx.Fits a) :
    ctx.Typed (s.act a) := by
  intro j d inst hd hinst
  rw [Assembly.instance?_act] at hinst
  split at hinst
  · rename_i i new
    split at hinst
    · rename_i hij
      obtain ⟨-, -, rfl⟩ := Option.map_eq_some_iff.1 hinst
      exact ha i new d rfl (hij ▸ hd)
    · exact ht j d inst hd hinst
  · exact ht j d inst hd hinst

theorem Typed.after {s : Assembly} {acts : List Act} (ht : ctx.Typed s)
    (hacts : ∀ a ∈ acts, ctx.Fits a) : ctx.Typed (s.after acts) := by
  induction acts generalizing s with
  | nil => exact ht
  | cons a rest ih =>
    obtain ⟨ha, hrest⟩ := List.forall_mem_cons.1 hacts
    exact ih (ht.act ha) hrest

end Context

/-! ## Values -/

theorem makeInstance_returns (b : Bean) (deps : List Supplied) :
    (makeInstance b deps).Returns (·.type = b.profile.type) :=
  returns_bind _ fun _ => returns_bind _ fun _ => returns_bind _ fun _ => returns_pure rfl

theorem construct_returns (ctx : Context) (inner : Nat → Wiring Instance) (owner : Option Nat)
    (hobject : ∀ inst, d.object = some inst → inst.type = d.bean.profile.type) :
    (construct ctx inner owner d).Returns (·.type = d.bean.profile.type) := by
  unfold construct
  cases hd : d.object with
  | some inst =>
    refine Returns.part ?_ owner .constructor
    exact returns_pure (hobject inst hd)
  | none =>
    cases d.bean.maker with
    | object => exact (makeInstance_returns d.bean []).part owner .constructor
    | constructor params refusal =>
      refine returns_bind _ fun deps => Returns.part ?_ owner .constructor
      cases refusal with
      | none => exact makeInstance_returns d.bean deps
      | some text => exact returns_bind _ fun _ => returns_fail _ _

/-- An injector keeps the type. -/
theorem runInjector_returns (ctx : Context) (inner : Nat → Wiring Instance) (b : Bean)
    (hinst : inst.type = type) (j : Injector) :
    (runInjector ctx inner b inst j).Returns (·.type = type) := by
  cases j with
  | act c => exact returns_bind _ fun _ => returns_pure hinst
  | bindSelf tag =>
    unfold runInjector
    dsimp only
    split
    · exact returns_pure hinst
    · exact returns_fail _ _

theorem build_returns (ctx : Context) (inner : Nat → Wiring Instance) (owner : Option Nat)
    (hobject : ∀ inst, d.object = some inst → inst.type = d.bean.profile.type) :
    (build ctx inner owner d).Returns (·.type = d.bean.profile.type) :=
  (construct_returns ctx inner owner hobject).bind fun _ hinst =>
    returns_inTurn (fun j _ _ hinst => runInjector_returns ctx inner d.bean hinst j) owner
      .injector 0 hinst

theorem initialized_returns (owner : Option Nat) (b : Bean) (hinst : inst.type = type) :
    (initialized owner b inst).Returns (·.type = type) := by
  unfold initialized
  cases b.init with
  | none => exact returns_pure hinst
  | some init =>
    refine (returns_bind _ fun _ => ?_ : (runInit b init inst).Returns _).part owner .init
    cases init.failure with
    | none => exact returns_pure hinst
    | some text => exact returns_fail _ _

theorem wireNow_returns (ctx : Context) (inner : Nat → Wiring Instance) (i : Nat)
    (hobject : ∀ inst, d.object = some inst → inst.type = d.bean.profile.type) :
    (wireNow ctx inner i d).Returns (·.type = d.bean.profile.type) := by
  refine returns_bind _ fun _ => (build_returns ctx inner (some i) hobject).attempt.bind
    fun built hbuilt => ?_
  cases built with
  | error e => exact returns_bind _ fun _ => returns_fail _ _
  | ok inst =>
    refine returns_bind _ fun _ => (initialized_returns (some i) d.bean
      (hbuilt inst rfl)).attempt.bind fun done hdone => ?_
    cases done with
    | error e => exact returns_bind _ fun _ => returns_fail _ _
    | ok inst => exact returns_bind _ fun _ => returns_pure (hdone inst rfl)

/-! ## Acts -/

section

variable {s₀ : Assembly} (hinner : ∀ i < ctx.definitions.length,
  Alike s₀ s₀ ctx.Fitting (inner i) (inner i))

theorem alike_once {a : Act} (ha : ctx.Fits a) : Alike s₀ s₀ ctx.Fitting (once a) (once a) :=
  .once fun _ _ hR => hR.snoc ha

theorem marked_fitting (owner : Option Nat) : Marked ctx.Fitting owner owner :=
  fun _ _ _ hR => hR.snoc (Context.fits_of_ne (by simp))

theorem madeAlike_fitting (s₀ : Assembly) : MadeAlike s₀ s₀ ctx.Fitting where
  made h k hR := by rw [hR.1]
  number h k taken hR := hR.snoc (Context.fits_of_ne (by simp))

theorem trace_fitting (s₀ : Assembly) {h k : List Act} (hR : ctx.Fitting h k) :
    (s₀.after k).trace = (s₀.after h).trace := by
  rw [hR.1]

include hinner

theorem abreast_fitting : Abreast s₀ s₀ ctx.Fitting ctx ctx [] inner inner where
  widens := ctx.widens_self
  silent h k a ha hR := hR.snoc (Context.fits_of_ne fun i inst e => by subst e; cases ha)
  inner := hinner

/-- The instance with which a definition becomes ready is that of building it. -/
theorem alike_wireNow (hd : ctx.definitions[i]? = some d)
    (hobject : ∀ inst, d.object = some inst → inst.type = d.bean.profile.type) :
    Alike s₀ s₀ ctx.Fitting (wireNow ctx inner i d) (wireNow ctx inner i d) := by
  have ha := abreast_fitting hinner
  have hquiet : ∀ a : Act, (∀ i inst, a ≠ .complete i inst) →
      Alike s₀ s₀ ctx.Fitting (once a) (once a) := fun a ha => alike_once (Context.fits_of_ne ha)
  refine (hquiet _ (by simp)).bind fun _ => ?_
  refine (ha.build (fun h k hR => trace_fitting s₀ hR) (marked_fitting (some i))
    (madeAlike_fitting s₀) fun q _ => ctx.same_self q).attempt.bind_of
      (build_returns ctx inner (some i) hobject).attempt fun built hbuilt => ?_
  cases built with
  | error e => exact (hquiet _ (by simp)).bind fun _ => .fail e
  | ok inst =>
    have hinst := hbuilt inst rfl
    refine (hquiet _ (by simp)).bind fun _ => ?_
    refine (Abreast.initialized (marked_fitting (some i))
      (fun h k e he => ha.silent h k _ (.note he)) d.bean inst).attempt.bind_of
        (initialized_returns (some i) d.bean hinst).attempt fun done hdone => ?_
    cases done with
    | error e => exact (hquiet _ (by simp)).bind fun _ => .fail e
    | ok inst =>
      refine (alike_once fun j inst' d' h hd' => ?_).bind fun _ => .pure inst
      cases h
      cases hd.symm.trans hd'
      exact hdone inst rfl

omit hinner in
/-- A definition that is not wired now changes nothing. -/
theorem alike_wireBy {now : Definition → Wiring Instance}
    (hnow : ∀ d, ctx.definitions[i]? = some d → Alike s₀ s₀ ctx.Fitting (now d) (now d)) :
    Alike s₀ s₀ ctx.Fitting (wireBy ctx now i) (wireBy ctx now i) := by
  intro h k hR
  obtain ⟨rfl, -⟩ := id hR
  refine .current ?_
  cases hd : ctx.definitions[i]? with
  | none => exact .fail hR _
  | some d =>
    cases (s₀.after k).slots[i]? with
    | none => exact .fail hR _
    | some slot =>
      have hcircular : AlikeAt s₀ s₀ ctx.Fitting k k (circular d.bean.profile.name)
          (circular d.bean.profile.name) := .current (.fail hR _)
      dsimp only
      cases slot.inst with
      | some inst => exact .pure hR inst
      | none =>
        cases slot.state with
        | unwired =>
          cases slot.toBuild with
          | false => exact hcircular
          | true => exact hnow d hd k k hR
        | failed => exact .fail hR _
        | _ => exact hcircular

end

section

variable (hobjects : ctx.ObjectsTyped)

include hobjects

/-- In all that wiring does, definitions become ready with instances of their types. -/
theorem alike_wire_fitting (s₀ : Assembly) (depth i : Nat) :
    Alike s₀ s₀ ctx.Fitting (wire ctx depth i) (wire ctx depth i) := by
  induction depth generalizing i with
  | zero =>
    refine alike_wireBy fun d _ h k hR => ?_
    obtain ⟨rfl, -⟩ := id hR
    exact .current (.fail hR _)
  | succ depth ih =>
    exact alike_wireBy fun d hd =>
      alike_wireNow (fun j _ => ih j) hd (hobjects d (List.mem_of_getElem? hd))

theorem abreast_wire (s₀ : Assembly) (depth : Nat) :
    Abreast s₀ s₀ ctx.Fitting ctx ctx [] (wire ctx depth) (wire ctx depth) :=
  abreast_fitting fun i _ => alike_wire_fitting hobjects s₀ depth i

theorem alike_wireEach (s₀ : Assembly) {is : List Nat}
    (his : ∀ i ∈ is, i < ctx.definitions.length) :
    Alike s₀ s₀ ctx.Fitting (wireEach ctx is) (wireEach ctx is) := by
  induction is with
  | nil => exact .pure ()
  | cons i rest ih =>
    obtain ⟨hi, hrest⟩ := List.forall_mem_cons.1 his
    exact ((abreast_wire hobjects s₀ _).fetch hi).bind fun _ => ih hrest

theorem alike_linkBean (s₀ : Assembly) (i : Nat) :
    Alike s₀ s₀ ctx.Fitting (linkBean ctx i) (linkBean ctx i) := by
  have hquiet : ∀ a : Act, (∀ i inst, a ≠ .complete i inst) → ∀ h k, ctx.Fitting h k →
      ctx.Fitting (h ++ [a]) (k ++ [a]) := fun a ha h k hR => hR.snoc (Context.fits_of_ne ha)
  intro h k hR
  obtain ⟨rfl, -⟩ := id hR
  refine .current ?_
  cases ctx.definitions[i]? with
  | none => exact .pure hR ()
  | some d =>
    cases (s₀.after k).slots[i]? with
    | none => exact .pure hR ()
    | some slot =>
      refine ((Alike.once (hquiet (.takeLinks i) (by simp))).bind fun _ => ?_) k k hR
      cases slot.toLink with
      | false => exact .pure ()
      | true =>
        cases slot.inst with
        | none => exact .pure ()
        | some inst =>
          exact .within _ (hquiet _ (by simp)) (hquiet _ (by simp))
            ((abreast_wire hobjects s₀ _).runLinks (fun h k hR => trace_fitting s₀ hR)
              (marked_fitting (some i)) (fun _ _ q _ => ctx.same_self q) _)

theorem alike_linkEach (s₀ : Assembly) (is : List Nat) :
    Alike s₀ s₀ ctx.Fitting (linkEach ctx is) (linkEach ctx is) := by
  induction is with
  | nil => exact .pure ()
  | cons i rest ih => exact (alike_linkBean hobjects s₀ i).bind fun _ => ih

theorem alike_assemble (s₀ : Assembly) :
    Alike s₀ s₀ ctx.Fitting (assemble ctx) (assemble ctx) :=
  (alike_wireEach hobjects s₀ fun _ => List.mem_range.1).bind fun _ => alike_linkEach hobjects s₀ _

end

/-- A definition that is ready has an instance of its type, and so has one that is wired now. -/
theorem Context.Typed.type_wireBy {s : Assembly} (ht : ctx.Typed s)
    (hd : ctx.definitions[i]? = some d) {now : Definition → Wiring Instance}
    (hnow : (now d).Returns (·.type = d.bean.profile.type)) :
    (wireBy ctx now i).Meets s [] fun r _ => ∀ inst, r = .ok inst →
      inst.type = d.bean.profile.type := by
  have hcircular : (circular d.bean.profile.name).Returns (·.type = d.bean.profile.type) :=
    returns_bind _ fun _ => returns_fail _ _
  have hfail : ∀ e, (fail e : Wiring Instance).Returns (·.type = d.bean.profile.type) :=
    returns_fail _
  unfold wireBy
  refine meets_bind.2 (meets_current.2 ?_)
  simp only [Assembly.after_nil, hd]
  cases hslot : s.slots[i]? with
  | none => exact (hfail _).meets
  | some slot =>
    dsimp only
    cases hinst : slot.inst with
    | some inst =>
      refine (meets_pure inst).2 fun inst' h => ?_
      cases h
      exact ht i d inst hd (by rw [Assembly.instance?, hslot]; exact hinst)
    | none =>
      cases slot.state with
      | unwired =>
        cases slot.toBuild with
        | false => exact hcircular.meets
        | true => exact hnow.meets
      | failed => exact (hfail _).meets
      | _ => exact hcircular.meets

/-- Wiring a definition gives an instance of the type of the bean. -/
theorem Context.Typed.type_wire {s t : Assembly} (ht : ctx.Typed s) (hobjects : ctx.ObjectsTyped)
    {depth : Nat} (hd : ctx.definitions[i]? = some d)
    (hw : (wire ctx depth i).run s = (.ok inst, t)) : inst.type = d.bean.profile.type := by
  have hobject := hobjects d (List.mem_of_getElem? hd)
  cases depth with
  | zero =>
    exact ht.type_wireBy hd (returns_bind _ fun _ => returns_fail _ _) inst (congrArg Prod.fst hw)
  | succ depth =>
    exact ht.type_wireBy hd (wireNow_returns ctx _ i hobject) inst (congrArg Prod.fst hw)

/-- What is done in a course that keeps definitions fitting keeps their instances typed. -/
theorem Context.Typed.run {α : Type} {s : Assembly} (ht : ctx.Typed s) {x : Wiring α}
    (hx : Alike s s ctx.Fitting x x) : ctx.Typed (x.run s).2 := by
  obtain ⟨-, -, hfits⟩ := hx [] [] ⟨rfl, fun _ h => absurd h List.not_mem_nil⟩
  rw [run_snd]
  exact ht.after hfits

namespace Builder

variable {b : Builder} {s : Assembly}

/-- A registry at some time: while a builder is refreshed, after any part of what is done then, or
in the container that comes of it, whatever has been done there. -/
inductive Stage (b : Builder) : Context → Assembly → Prop where
  | refreshing {before after : List Act} (hacts : b.acts = before ++ after) :
    b.Stage b.context (b.reached before)
  | ready {c : Container} {events : List Event} (hok : b.refresh = (.ok c, events)) {s : Assembly}
    (hslots : s.slots = c.slots) : b.Stage c.context s

theorem Stage.definitions (hs : b.Stage ctx s) : ctx.definitions = b.definitions := by
  cases hs with
  | refreshing hacts => rfl
  | ready hok hslots =>
    obtain ⟨-, rfl, -⟩ := refresh_ok hok
    rfl

/-- At every stage, the instances of ready definitions are of the types of their beans. -/
theorem Stage.typed (hs : b.Stage ctx s) (hobjects : b.context.ObjectsTyped) : ctx.Typed s := by
  have hacts : ∀ a ∈ b.acts, b.context.Fits a :=
    (alike_assemble hobjects b.assembly [] [] ⟨rfl, fun _ h => absurd h List.not_mem_nil⟩).2.2
  have hstart : b.context.Typed b.assembly := by
    intro i d inst hd hinst
    have hnone : ((b.definitions.map Definition.slot)[i]?).bind (·.inst) = some inst := hinst
    rw [List.getElem?_map, show b.definitions[i]? = some d from hd] at hnone
    cases hnone
  cases hs with
  | refreshing hsplit =>
    exact hstart.after fun a ha => hacts a (hsplit ▸ List.mem_append_left _ ha)
  | ready hok hslots =>
    obtain ⟨-, rfl, -⟩ := refresh_ok hok
    have hend := hstart.after hacts
    intro i d inst hd hinst
    refine hend i d inst hd ?_
    rw [Assembly.instance?, hslots] at hinst
    exact hinst

end Builder

end ConfigGraph
