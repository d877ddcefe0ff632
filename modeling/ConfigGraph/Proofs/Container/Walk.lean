import ConfigGraph.Proofs.Container.Refresh
import ConfigGraph.Proofs.Postorder
import Mathlib.Data.List.Perm.Subperm

/-!
# Walks through the graph of beans

Beans that are made from single beans only (`Context.Plain`) span a graph: each of them depends on
those that its parameters match (`Builder.children`). Wiring walks through this graph depth first,
or it stops at a cycle (`walks_wire`): where it comes to an end, the definitions have become ready
in postorder (`Builder.Visits`).
-/

namespace ConfigGraph

open Relation (TransGen)

/-! ## Parameters for single beans -/

/-- What is looked up for a parameter for a single bean, from what is given for it. -/
def Param.lookup? : Param → Option Argument → Option (TypeId × Selector)
  | .bean type, none => some (type, .inferred)
  | .bean type, some (.bean s) => some (type, s)
  | _, _ => none

/-- The definitions that parameters for single beans match, in order. The first parameter has the
number `index`. -/
def Context.sought (ctx : Context) (args : List Argument) (index : Nat) : List Param → List Nat
  | [] => []
  | p :: rest =>
    (match p.lookup? args[index]? with
      | some (type, s) => ctx.candidates type s
      | none => []) ++ ctx.sought args (index + 1) rest

/-- The function that makes a bean; an object is made already. -/
def Bean.function (b : Bean) : Function :=
  match b.maker with
  | .object => ⟨[], [], none⟩
  | .constructor params refusal => ⟨params, b.args, refusal⟩

/-- A bean that is made from single beans, and of which nothing fails: its constructor takes
parameters for single beans, each matched by exactly one bean, and there are no further arguments;
its init callback succeeds, and it has no other callbacks. -/
structure Context.Plain (ctx : Context) (b : Bean) : Prop where
  matched : ∀ (k : Nat) (p : Param), b.function.params[k]? = some p →
    ∃ (type : TypeId) (s : Selector) (j : Nat),
      p.lookup? b.function.args[k]? = some (type, s) ∧ ctx.candidates type s = [j]
  noSurplus : b.function.args.length ≤ b.function.params.length
  noRefusal : b.function.refusal = none
  noInjector : b.injectors = []
  noLink : b.links = []
  noFailure : ∀ init, b.init = some init → init.failure = none

/-- A definition that a lookup matches is looked up by an export for the type of the lookup. -/
theorem Context.mem_candidates {ctx : Context} {type : TypeId} {s : Selector} {j : Nat}
    (hj : j ∈ ctx.candidates type s) : ∃ d e, ctx.definitions[j]? = some d ∧ e.type = type ∧
      ((ctx.profile? j).bind fun p => (p.export? type false).map (p.type, ·)) =
        some (d.bean.profile.type, e) := by
  obtain ⟨-, hj⟩ := List.mem_filter.1 hj
  obtain ⟨p, hp, haccepts⟩ := (Option.any_eq_true _ _).1 hj
  obtain ⟨d, hd, rfl⟩ := Option.map_eq_some_iff.1 hp
  obtain ⟨e, he⟩ := Option.isSome_iff_exists.1 (Bool.and_eq_true_iff.1 haccepts).1
  have hfound := List.find?_some he
  refine ⟨d, e, hd, beq_iff_eq.1 (Bool.and_eq_true_iff.1 hfound).1, ?_⟩
  rw [hp, Option.bind_some, he, Option.map_some]

theorem supply_of_lookup? {ctx : Context} {wire : Nat → Wiring Instance} {index : Nat}
    {arg : Option Argument} {p : Param} {type : TypeId} {s : Selector}
    (h : p.lookup? arg = some (type, s)) :
    supply ctx wire index arg p = .bean <$> getBean ctx wire type s := by
  unfold Param.lookup? at h
  split at h
  · cases h
    rfl
  · cases h
    rfl
  · cases h

namespace Builder

/-- The definitions that the parameters of a definition match, in order. -/
def children (b : Builder) (i : Nat) : List Nat :=
  match b.definitions[i]? with
  | some d => b.context.sought d.bean.function.args 0 d.bean.function.params
  | none => []

/-- A definition depends on those that its parameters match. -/
def Depends (b : Builder) (i j : Nat) : Prop :=
  j ∈ b.children i

theorem lt_of_depends {b : Builder} {i j : Nat} (h : b.Depends i j) : j < b.definitions.length := by
  have hsought : ∀ (args : List Argument) (ps : List Param) (index : Nat),
      j ∈ b.context.sought args index ps → j < b.definitions.length := by
    intro args ps
    induction ps with
    | nil => exact fun index hj => nomatch hj
    | cons p rest ih =>
      intro index hj
      rw [Context.sought, List.mem_append] at hj
      rcases hj with hj | hj
      · split at hj
        · exact List.mem_range.1 (List.mem_filter.1 hj).1
        · cases hj
      · exact ih _ hj
  unfold Depends children at h
  split at h
  · exact hsought _ _ _ h
  · cases h

instance (b : Builder) (i j : Nat) : Decidable (b.Depends i j) :=
  inferInstanceAs (Decidable (j ∈ b.children i))

/-- All beans of a builder are made from single beans, and objects have their instances. -/
structure Plain (b : Builder) : Prop where
  beans : ∀ d ∈ b.definitions, b.context.Plain d.bean
  objects : ∀ d ∈ b.definitions, ∀ inst, d.object = some inst →
    d.bean.maker = .object ∧ inst.type = d.bean.profile.type

/-! ## Walks -/

/-- No definition has failed or waits for its init callback, and instances are of the types of their
beans. -/
structure Calm (b : Builder) (h : List Act) : Prop where
  states : ∀ j, b.state? h j ≠ some .failed ∧ b.state? h j ≠ some .wired
  typed : ∀ j d inst, b.definitions[j]? = some d → (b.reached h).instance? j = some inst →
    inst.type = d.bean.profile.type

/-- From `h` to `h'` the definitions in `is` are wired one after the other, depth first. -/
structure Visits (b : Builder) (is : List Nat) (h h' : List Act) : Prop where
  calm : b.Calm h'
  order : Postorder b.children (b.reached h).ready is (b.reached h').ready

/-- A definition may be looked up: all that are being wired depend on it, and a depth of `room` is
enough for those that are not. -/
structure MayAsk (b : Builder) (room : Nat) (h : List Act) (i : Nat) : Prop where
  sound : b.Sound h
  calm : b.Calm h
  bound : i < b.definitions.length
  below : ∀ x ∈ (b.reached h).wirings, TransGen b.Depends x i
  room : b.definitions.length ≤ room + (b.reached h).wirings.length

/-- A course comes to an end with `post`, or it stops at a cycle. -/
def OrCycle (b : Builder) {α : Type} (post : α → List Act → Prop) :
    Except ContainerError α → List Act → Prop
  | .ok a, h => post a h
  | .error e, _ => (∃ chain, e = .circularDependency chain) ∧ ∃ i, TransGen b.Depends i i

/-- A function wires definitions depth first, or it stops at a cycle. -/
def Walks (b : Builder) (room : Nat) (wire : Nat → Wiring Instance) : Prop :=
  ∀ i h, b.MayAsk room h i → (wire i).Meets b.assembly h (b.OrCycle fun inst h' =>
    b.Advances none h h' ∧ b.Visits [i] h h' ∧ (b.reached h').instance? i = some inst)

variable {b : Builder} {room : Nat} {wire : Nat → Wiring Instance} {h h' h'' : List Act}
  {i j : Nat} {is js : List Nat} {d : Definition} {α β : Type}

theorem OrCycle.bind {x : Wiring α} {f : α → Wiring β} {post : α → List Act → Prop}
    {post' : β → List Act → Prop} (hx : x.Meets b.assembly h (b.OrCycle post))
    (hf : ∀ a h', post a h' → (f a).Meets b.assembly h' (b.OrCycle post')) :
    (x >>= f).Meets b.assembly h (b.OrCycle post') := by
  refine Wiring.meets_bind.2 (hx.mono fun r h' hr => ?_)
  cases r with
  | ok a => exact hf a h' hr
  | error e => exact hr

theorem OrCycle.map {x : Wiring α} {post : List Act → Prop} (f : α → β)
    (hx : x.Meets b.assembly h (b.OrCycle fun _ => post)) :
    (f <$> x).Meets b.assembly h (b.OrCycle fun _ => post) := by
  refine Wiring.meets_map.2 (hx.mono fun r h' hr => ?_)
  cases r with
  | ok a => exact hr
  | error e => exact hr

theorem Visits.trans (h₁ : b.Visits is h h') (h₂ : b.Visits js h' h'') :
    b.Visits (is ++ js) h h'' where
  calm := h₂.calm
  order := h₁.order.append h₂.order

theorem Calm.congr (hc : b.Calm h) (hslots : (b.reached h').slots = (b.reached h).slots) :
    b.Calm h' where
  states j := by
    unfold state? Assembly.state?
    rw [hslots]
    exact hc.states j
  typed j := by
    unfold Assembly.instance?
    rw [hslots]
    exact hc.typed j

theorem MayAsk.advance (hm : b.MayAsk room h i) (ha : b.Advances none h h') (hc : b.Calm h') :
    b.MayAsk room h' i where
  sound := ha.sound
  calm := hc
  bound := hm.bound
  below := by
    unfold Assembly.wirings
    rw [ha.chain]
    exact hm.below
  room := by
    unfold Assembly.wirings
    rw [ha.chain]
    exact hm.room

end Builder

open Builder

namespace Builder.Walks

variable {b : Builder} {room : Nat} {wire : Nat → Wiring Instance} {h : List Act} {i : Nat}
  (hw : b.Walks room wire)

include hw

theorem fetch (hm : b.MayAsk room h i) :
    (fetch wire i).Meets b.assembly h (b.OrCycle fun inst h' =>
      b.Advances none h h' ∧ b.Visits [i] h h' ∧ (b.reached h').instance? i = some inst) := by
  have hask : b.Advances none h (h ++ [.ask i]) := .ask hm.sound (hm.calm.states i).1
  simp only [ConfigGraph.fetch, Wiring.meets_bind, Wiring.meets_once, Wiring.meets_attempt]
  refine (hw i _ (hm.advance hask (hm.calm.congr (by rw [reached_append]; rfl)))).mono
    fun r h' hr => ?_
  cases r with
  | ok inst =>
    simp only [Wiring.meets_bind, Wiring.meets_once, Wiring.meets_pure]
    obtain ⟨ha, hv, hinst⟩ := hr
    refine ⟨(hask.trans ha).trans (.receive ha.sound hinst),
      ⟨hv.calm.congr (by rw [reached_append]; rfl), ?_⟩, ?_⟩
    · have horder := hv.order
      rw [reached_append] at horder ⊢
      exact horder
    · rw [reached_append]
      exact hinst
  | error e =>
    simp only [Wiring.meets_bind, Wiring.meets_once, Wiring.meets_fail]
    exact hr

/-- The only bean that a selector picks is wired, and it can be seen as the type asked for. -/
theorem getBean {type : TypeId} {s : Selector} (hc : b.context.candidates type s = [i])
    (hm : b.MayAsk room h i) :
    (getBean b.context wire type s).Meets b.assembly h (b.OrCycle fun _ h' =>
      b.Advances none h h' ∧ b.Visits [i] h h') := by
  obtain ⟨d, e, hd, -, hp⟩ := Context.mem_candidates (hc ▸ List.mem_singleton_self i)
  have hlocate : (locate b.context wire type s).Meets b.assembly h (b.OrCycle fun r h' =>
      r.2.2.type = r.2.1 ∧ b.Advances none h h' ∧ b.Visits [i] h h') := by
    simp only [locate, hc, hp]
    refine OrCycle.bind (hw.fetch hm) fun inst h' ⟨ha, hv, hinst⟩ => ?_
    exact (Wiring.meets_pure _).2 ⟨hv.calm.typed i d inst hd hinst, ha, hv⟩
  refine OrCycle.bind hlocate fun ⟨e, own, inst⟩ h' ⟨htype, hr⟩ => ?_
  simp only [Export.cast?, if_pos htype]
  exact (Wiring.meets_pure _).2 hr

theorem supplyFrom {args : List Argument} (ps : List Param) (index : Nat)
    (hmatched : ∀ (k : Nat) (p : Param), ps[k]? = some p →
      ∃ (type : TypeId) (s : Selector) (j : Nat),
        p.lookup? args[index + k]? = some (type, s) ∧ b.context.candidates type s = [j])
    (hs : b.Sound h) (hc : b.Calm h)
    (hm : ∀ j ∈ b.context.sought args index ps, b.MayAsk room h j) :
    (supplyFrom b.context wire args index ps).Meets b.assembly h (b.OrCycle fun _ h' =>
      b.Advances none h h' ∧ b.Visits (b.context.sought args index ps) h h') := by
  induction ps generalizing index h with
  | nil => exact (Wiring.meets_pure _).2 ⟨.refl hs, hc, .nil⟩
  | cons p rest ih =>
    obtain ⟨type, s, j, hlookup, hj⟩ := hmatched 0 p rfl
    rw [Nat.add_zero] at hlookup
    have hsought : b.context.sought args index (p :: rest) =
        [j] ++ b.context.sought args (index + 1) rest := by
      rw [Context.sought, hlookup, ← hj]
    rw [hsought] at hm ⊢
    have hfirst : (supply b.context wire index args[index]? p).Meets b.assembly h
        (b.OrCycle fun _ h' => b.Advances none h h' ∧ b.Visits [j] h h') := by
      rw [supply_of_lookup? hlookup]
      exact OrCycle.map _ (hw.getBean hj (hm j (List.mem_cons_self ..)))
    refine OrCycle.bind hfirst fun value h' ⟨ha, hv⟩ => ?_
    have hrest : ∀ k ∈ b.context.sought args (index + 1) rest, b.MayAsk room h' k :=
      fun k hk => (hm k (List.mem_append_right _ hk)).advance ha hv.calm
    refine OrCycle.bind (ih (index + 1) (fun k p hp => ?_) ha.sound hv.calm hrest)
      fun values h'' ⟨ha', hv'⟩ => (Wiring.meets_pure _).2 ⟨ha.trans ha', hv.trans hv'⟩
    have := hmatched (k + 1) p hp
    rwa [Nat.add_comm k 1, ← Nat.add_assoc] at this

end Builder.Walks

/-! ## Building beans that are made from single beans -/

/-- From `h` to `h'` neither slots nor the order of readiness have changed. -/
structure Builder.Still (b : Builder) (h h' : List Act) : Prop where
  slots : (b.reached h').slots = (b.reached h).slots
  ready : (b.reached h').ready = (b.reached h).ready

section

variable {b : Builder} {room : Nat} {wire : Nat → Wiring Instance} {h h' h'' : List Act} {i : Nat}
  {is : List Nat} {d : Definition} {a : Act} {name : String} {α : Type}

theorem Builder.Still.trans (h₁ : b.Still h h') (h₂ : b.Still h' h'') : b.Still h h'' :=
  ⟨h₂.slots.trans h₁.slots, h₂.ready.trans h₁.ready⟩

theorem Builder.Still.once (hslots : ((b.reached h).act a).slots = (b.reached h).slots)
    (hready : a.readies? = none) : b.Still h (h ++ [a]) where
  slots := by rw [reached_append]; exact hslots
  ready := ready_snoc_of_none hready

theorem Builder.Still.state? (hs : b.Still h h') (j : Nat) : b.state? h' j = b.state? h j := by
  unfold Builder.state? Assembly.state?
  rw [hs.slots]

theorem Builder.Still.instance? (hs : b.Still h h') (j : Nat) :
    (b.reached h').instance? j = (b.reached h).instance? j := by
  unfold Assembly.instance?
  rw [hs.slots]

theorem Builder.Visits.still (hv : b.Visits is h h') (hs : b.Still h' h'') : b.Visits is h h'' where
  calm := hv.calm.congr hs.slots
  order := hs.ready ▸ hv.order

/-- A course gives a value and leaves slots and the order of readiness as they are. -/
def Builder.Gives (b : Builder) (h : List Act) (good : α → Prop) (r : Except ContainerError α)
    (h' : List Act) : Prop :=
  (∃ a, r = .ok a ∧ good a) ∧ b.Still h h'

theorem part_gives {owner : Option Nat} {p : Part} {x : Wiring α} {good : α → Prop}
    (hx : ∀ h, x.Meets b.assembly h (b.Gives h good)) :
    (Wiring.part owner p x).Meets b.assembly h (b.Gives h good) := by
  simp only [Wiring.part, Wiring.meets_bind, Wiring.meets_once, Wiring.meets_pure]
  refine (hx (h ++ [.mark owner (.begins p)])).mono fun r h' hr => ?_
  obtain ⟨⟨a, rfl, ha⟩, hs⟩ := hr
  exact ⟨⟨a, rfl, ha⟩, (Still.once rfl rfl).trans (hs.trans (.once rfl rfl))⟩

theorem makeInstance_gives (bean : Bean) (deps : List Supplied) :
    (makeInstance bean deps).Meets b.assembly h
      (b.Gives h fun inst => inst.type = bean.profile.type) := by
  simp only [makeInstance, Wiring.note, Wiring.meets_bind, Wiring.meets_current, Wiring.meets_once,
    Wiring.meets_pure]
  exact ⟨⟨_, rfl, rfl⟩, (Still.once rfl rfl).trans (.once rfl rfl)⟩

/-- The init callback of a bean succeeds. -/
theorem initialized_gives {bean : Bean} {owner : Option Nat}
    (hinit : ∀ init, bean.init = some init → init.failure = none) (inst : Instance) :
    (initialized owner bean inst).Meets b.assembly h
      (b.Gives h fun inst' => inst'.type = inst.type) := by
  unfold initialized
  cases hi : bean.init with
  | none => exact (Wiring.meets_pure _).2 ⟨⟨inst, rfl, rfl⟩, rfl, rfl⟩
  | some init =>
    refine part_gives fun h => ?_
    simp only [runInit, Wiring.note, Wiring.meets_bind, Wiring.meets_once, hinit init hi,
      Wiring.meets_pure]
    exact ⟨⟨_, rfl, rfl⟩, .once rfl rfl⟩

theorem Builder.Gives.orCycle {good : α → Prop} {r : Except ContainerError α}
    (hg : b.Gives h' good r h'') (hv : b.Visits is h h') :
    b.OrCycle (fun a h'' => good a ∧ b.Visits is h h'') r h'' := by
  obtain ⟨⟨a, rfl, ha⟩, hs⟩ := hg
  exact ⟨ha, hv.still hs⟩

theorem Builder.Walks.construct (hw : b.Walks room wire) (hplain : b.Plain)
    (hd : b.definitions[i]? = some d) (hs : b.Sound h) (hc : b.Calm h)
    (hm : ∀ j ∈ b.children i, b.MayAsk room h j) :
    (construct b.context wire (some i) d).Meets b.assembly h (b.OrCycle fun inst h' =>
      inst.type = d.bean.profile.type ∧ b.Visits (b.children i) h h') := by
  have hbean := hplain.beans d (List.mem_of_getElem? hd)
  have hchildren : b.children i =
      b.context.sought d.bean.function.args 0 d.bean.function.params := by
    rw [children, hd]
  have hnone : d.bean.maker = .object → b.Visits (b.children i) h h := by
    intro hmaker
    rw [hchildren, Bean.function, hmaker]
    exact ⟨hc, .nil⟩
  unfold ConfigGraph.construct
  split
  · rename_i inst hobject
    obtain ⟨hmaker, htype⟩ := hplain.objects d (List.mem_of_getElem? hd) inst hobject
    refine (part_gives fun h => (Wiring.meets_pure inst).2 ?_).mono
      fun r h' hg => hg.orCycle (hnone hmaker)
    exact ⟨⟨inst, rfl, htype⟩, rfl, rfl⟩
  · rename_i hmaker
    exact (part_gives fun h => makeInstance_gives d.bean []).mono
      fun r h' hg => hg.orCycle (hnone hmaker)
  · rename_i params refusal _ hmaker
    have hfunction : d.bean.function = ⟨params, d.bean.args, refusal⟩ := by
      rw [Bean.function, hmaker]
    have hmatched := hbean.matched
    have hsurplus := hbean.noSurplus
    have hrefusal := hbean.noRefusal
    rw [hchildren] at hm ⊢
    rw [hfunction] at hmatched hsurplus hrefusal hm ⊢
    have hsupply : (supplyAll b.context wire ⟨params, d.bean.args, refusal⟩).Meets b.assembly h
        (b.OrCycle fun _ h' => b.Visits (b.context.sought d.bean.args 0 params) h h') := by
      refine OrCycle.bind (hw.supplyFrom params 0 (fun k p hp => ?_) hs hc hm)
        fun values h' ⟨_, hv⟩ => ?_
      · rw [Nat.zero_add]
        exact hmatched k p hp
      · rw [if_neg (Nat.not_lt.2 hsurplus)]
        exact (Wiring.meets_pure _).2 hv
    obtain rfl : refusal = none := hrefusal
    exact OrCycle.bind hsupply fun deps h' hv =>
      (part_gives fun h => makeInstance_gives d.bean deps).mono fun r h'' hg => hg.orCycle hv

/-- A bean is built, after all that its parameters match. -/
theorem Builder.Walks.build (hw : b.Walks room wire) (hplain : b.Plain)
    (hd : b.definitions[i]? = some d) (hs : b.Sound h) (hc : b.Calm h)
    (hm : ∀ j ∈ b.children i, b.MayAsk room h j) :
    (build b.context wire (some i) d).Meets b.assembly h (b.OrCycle fun inst h' =>
      inst.type = d.bean.profile.type ∧ b.Visits (b.children i) h h') := by
  refine OrCycle.bind (hw.construct hplain hd hs hc hm) fun inst h' hr => ?_
  rw [(hplain.beans d (List.mem_of_getElem? hd)).noInjector]
  exact (Wiring.meets_pure _).2 hr

/-! ## Wiring -/

/-- A definition that has been built becomes ready. -/
theorem finish_gives
    (hinit : ∀ init, d.bean.init = some init → init.failure = none) (inst : Instance) :
    (finish i d.bean inst).Meets b.assembly h fun r h' => ∃ inst' h'', r = .ok inst' ∧
      inst'.type = inst.type ∧ b.Still h h'' ∧ h' = h'' ++ [.complete i inst'] := by
  simp only [finish, Wiring.meets_bind, Wiring.meets_attempt]
  refine (initialized_gives hinit inst).mono fun r h'' hg => ?_
  obtain ⟨⟨inst', rfl, htype⟩, hs⟩ := hg
  simp only [Wiring.meets_bind, Wiring.meets_once, Wiring.meets_pure]
  exact ⟨inst', h'', rfl, htype, hs, rfl⟩

theorem Builder.instance?_append_singleton {inst : Instance} {j : Nat}
    (ha : ∀ i inst, a ≠ .complete i inst) (hj : (b.reached (h ++ [a])).instance? j = some inst) :
    (b.reached h).instance? j = some inst := by
  rw [reached_append, Assembly.after_cons, Assembly.after_nil, Assembly.instance?_act] at hj
  split at hj
  · exact absurd rfl (ha _ _)
  · exact hj

theorem Builder.Calm.enter (hc : b.Calm h) : b.Calm (h ++ [.enter i name]) where
  states j := by
    rw [state?_append_singleton]
    show (if i = j then _ else _) ≠ _ ∧ (if i = j then _ else _) ≠ _
    split
    · cases b.state? h j <;> simp
    · exact hc.states j
  typed j d inst hd hinst := hc.typed j d inst hd (instance?_append_singleton (by simp) hinst)

/-- The walk is done with a definition, after its children. -/
theorem Builder.Visits.done {inst : Instance} (hi : i ∉ (b.reached h).ready)
    (hd : b.definitions[i]? = some d) (hv : b.Visits (b.children i) (h ++ [.enter i name]) h')
    (hs : b.Still (h' ++ [.leave i true]) h'') (htype : inst.type = d.bean.profile.type) :
    b.Visits [i] h (h'' ++ [.complete i inst]) where
  calm := by
    refine ⟨fun j => ?_, fun j d' inst' hd' hinst => ?_⟩
    · rw [state?_append_singleton, hs.state?, state?_append_singleton]
      show (if i = j then _ else (if i = j then _ else _)) ≠ _ ∧
        (if i = j then _ else (if i = j then _ else _)) ≠ _
      split
      · cases b.state? h' j <;> simp
      · exact hv.calm.states j
    · rw [reached_append, Assembly.after_cons, Assembly.after_nil, Assembly.instance?_act] at hinst
      simp only at hinst
      split at hinst
      · rename_i hij
        subst hij
        obtain ⟨slot, -, rfl⟩ := Option.map_eq_some_iff.1 hinst
        obtain rfl := Option.some.inj (hd.symm.trans hd')
        exact htype
      · rw [hs.instance?] at hinst
        exact hv.calm.typed j d' inst' hd' (instance?_append_singleton (by simp) hinst)
  order := by
    have horder := hv.order
    rw [ready_snoc_of_none rfl] at horder
    rw [ready_append_singleton, hs.ready, ready_snoc_of_none rfl]
    exact .visit hi horder .nil

/-- What a definition depends on may be looked up while it is being wired. -/
theorem Builder.MayAsk.child (hm : b.MayAsk (room + 1) h i) (hd : b.definitions[i]? = some d)
    (hi : b.state? h i = some .unwired) {j : Nat} (hj : b.Depends i j) :
    b.MayAsk room (h ++ [.enter i d.bean.profile.name]) j := by
  have hwirings : (b.reached (h ++ [.enter i d.bean.profile.name])).wirings =
      (b.reached h).wirings ++ [i] := by
    rw [reached_append]
    exact List.filterMap_append
  refine ⟨hm.sound.snoc ⟨d, hd, rfl, hi⟩ (by simp), hm.calm.enter, lt_of_depends hj, ?_, ?_⟩
  · intro x hx
    rw [hwirings, List.mem_append, List.mem_singleton] at hx
    rcases hx with hx | rfl
    · exact (hm.below x hx).tail hj
    · exact .single hj
  · have := hm.room
    rw [hwirings, List.length_append, List.length_singleton]
    omega

/-- An unwired definition is wired, after its children. -/
theorem Builder.Walks.wireNow (hw : b.Walks room wire) (hwires : Wires b wire) (hplain : b.Plain)
    (hm : b.MayAsk (room + 1) h i) (hd : b.definitions[i]? = some d)
    (hi : b.state? h i = some .unwired) :
    (wireNow b.context wire i d).Meets b.assembly h (b.OrCycle fun inst h' =>
      b.Advances none h h' ∧ b.Visits [i] h h' ∧ (b.reached h').instance? i = some inst) := by
  have hinit := (hplain.beans d (List.mem_of_getElem? hd)).noFailure
  have hready : i ∉ (b.reached h).ready := fun hmem => by
    cases hi.symm.trans ((hm.sound.lawful.mem_ready_iff i).1 hmem)
  have hvisits : (ConfigGraph.wireNow b.context wire i d).Meets b.assembly h
      (b.OrCycle fun _ h' => b.Visits [i] h h') := by
    simp only [ConfigGraph.wireNow, Wiring.meets_bind, Wiring.meets_once, Wiring.meets_attempt]
    have hs₁ : b.Sound (h ++ [.enter i d.bean.profile.name]) :=
      hm.sound.snoc ⟨d, hd, rfl, hi⟩ (by simp)
    refine (hw.build hplain hd hs₁ hm.calm.enter fun j hj => hm.child hd hi hj).mono
      fun r h' hr => ?_
    cases r with
    | ok inst =>
      obtain ⟨htype, hv⟩ := hr
      simp only [Wiring.meets_bind, Wiring.meets_once]
      refine (finish_gives hinit inst).mono fun r h₂ hend => ?_
      obtain ⟨inst', h₁, hr, htype', hs, hh⟩ := hend
      subst hr hh
      exact hv.done hready hd hs (htype'.trans htype)
    | error e =>
      simp only [Wiring.meets_bind, Wiring.meets_once, Wiring.meets_fail]
      exact hr
  refine ((hwires.wireNow hm.sound hd hi).and hvisits).mono fun r h' hend => ?_
  obtain ⟨⟨ha, hinst⟩, hr⟩ := hend
  cases r with
  | ok inst => exact ⟨ha, hr, hinst inst rfl⟩
  | error e => exact hr

/-- A definition that may be looked up is ready, or it is wired now, or it is being wired already:
then there is a cycle. -/
theorem wireBy_walks {now : Definition → Wiring Instance} (hm : b.MayAsk room h i)
    (hnow : ∀ d, b.definitions[i]? = some d → b.state? h i = some .unwired →
      (now d).Meets b.assembly h (b.OrCycle fun inst h' =>
        b.Advances none h h' ∧ b.Visits [i] h h' ∧ (b.reached h').instance? i = some inst)) :
    (wireBy b.context now i).Meets b.assembly h (b.OrCycle fun inst h' =>
      b.Advances none h h' ∧ b.Visits [i] h h' ∧ (b.reached h').instance? i = some inst) := by
  have hcon := hm.sound.lawful.consistent
  obtain ⟨d, hd⟩ : ∃ d, b.definitions[i]? = some d := ⟨_, List.getElem?_eq_getElem hm.bound⟩
  obtain ⟨slot, hslot⟩ : ∃ slot, (b.reached h).slots[i]? = some slot :=
    ⟨_, List.getElem?_eq_getElem ((b.length_reached h).symm ▸ hm.bound)⟩
  have hstate : b.state? h i = some slot.state := by rw [state?, Assembly.state?, hslot]; rfl
  obtain ⟨hbuild, hinst⟩ := hcon.coherent slot (List.mem_of_getElem? hslot)
  obtain ⟨hfailed, hwired⟩ := hm.calm.states i
  rw [hstate] at hfailed hwired
  have hd' : b.context.definitions[i]? = some d := hd
  have hslot' : (b.assembly.after h).slots[i]? = some slot := hslot
  simp only [wireBy, Wiring.meets_bind, Wiring.meets_current, hd', hslot']
  cases hi : slot.inst with
  | some inst =>
    have hinst : (b.reached h).instance? i = some inst :=
      Option.bind_eq_some_iff.2 ⟨slot, hslot, hi⟩
    have hready := (hm.sound.lawful.mem_ready_iff i).2 (hm.sound.lawful.state?_of_instance? hinst)
    dsimp only
    exact (Wiring.meets_pure _).2 ⟨.refl hm.sound, ⟨hm.calm, .skip hready .nil⟩, hinst⟩
  | none =>
    dsimp only
    cases hs : slot.state with
    | unwired =>
      simp only [hbuild.2 hs]
      exact hnow _ hd (hstate.trans (by rw [hs]))
    | wiring =>
      simp only [circular, Wiring.meets_bind, Wiring.meets_current, Wiring.meets_fail]
      exact ⟨⟨_, rfl⟩, i, hm.below i ((hcon.wiring_iff i).1 (hstate.trans (by rw [hs])))⟩
    | wired => exact absurd (by rw [hs]) hwired
    | ready =>
      rw [hi] at hinst
      cases hinst.2 hs
    | failed => exact absurd (by rw [hs]) hfailed

/-- While some definition is unwired, fewer are being wired than there are. -/
theorem Builder.Lawful.length_wirings_lt (hl : b.Lawful h) (hi : b.state? h i = some .unwired) :
    (b.reached h).wirings.length < b.definitions.length := by
  have hcon := hl.consistent
  have hnot : i ∉ (b.reached h).wirings := fun hmem => by
    cases hi.symm.trans ((hcon.wiring_iff i).2 hmem)
  have hsub : i :: (b.reached h).wirings ⊆ List.range b.definitions.length := by
    refine List.cons_subset.2 ⟨?_, fun x hx => List.mem_range.2 ?_⟩
    · exact List.mem_range.2 (state?_isSome.1 (Option.isSome_of_eq_some hi))
    · exact state?_isSome.1 (Option.isSome_of_eq_some ((hcon.wiring_iff x).2 hx))
  have hlen := (List.subperm_of_subset (List.nodup_cons.2 ⟨hnot, hcon.nodup⟩) hsub).length_le
  rwa [List.length_cons, List.length_range] at hlen

/-- Where there is no room left, all definitions are being wired. -/
theorem Builder.MayAsk.ne_unwired (hm : b.MayAsk 0 h i) : b.state? h i ≠ some .unwired := by
  intro hi
  have := hm.sound.lawful.length_wirings_lt hi
  have := hm.room
  omega

/-- Wiring walks through the graph, with any depth that is enough. -/
theorem walks_wire (hplain : b.Plain) (room : Nat) :
    b.Walks room (ConfigGraph.wire b.context room) := by
  induction room with
  | zero => exact fun i h hm => wireBy_walks hm fun d _ hi => absurd hi hm.ne_unwired
  | succ room ih =>
    exact fun i h hm => wireBy_walks hm fun d hd hi =>
      ih.wireNow (wires_wire b room) hplain hm hd hi

theorem wireEach_walks (hplain : b.Plain) (is : List Nat) (his : ∀ i ∈ is, i < b.definitions.length)
    (hs : b.Sound h) (hc : b.Calm h) (hchain : (b.reached h).chain = []) :
    (wireEach b.context is).Meets b.assembly h (b.OrCycle fun _ h' =>
      b.Advances none h h' ∧ b.Visits is h h') := by
  induction is generalizing h with
  | nil => exact (Wiring.meets_pure _).2 ⟨.refl hs, hc, .nil⟩
  | cons i rest ih =>
    obtain ⟨hi, hrest⟩ := List.forall_mem_cons.1 his
    have hm : b.MayAsk b.definitions.length h i :=
      ⟨hs, hc, hi, by simp [Assembly.wirings, hchain], by omega⟩
    refine OrCycle.bind ((walks_wire hplain _).fetch hm) fun inst h' hr => ?_
    obtain ⟨ha, hv, -⟩ := hr
    refine (ih hrest ha.sound hv.calm (ha.chain.trans hchain)).mono fun r h'' hr => ?_
    cases r with
    | ok u => exact ⟨ha.trans hr.1, hv.trans hr.2⟩
    | error e => exact hr

/-- Without link callbacks linking does nothing that could fail. -/
theorem linkEach_gives (is : List Nat) (hlink : ∀ j, b.toLink? h j ≠ some true) :
    (linkEach b.context is).Meets b.assembly h fun r h' =>
      r = .ok () ∧ (b.reached h').ready = (b.reached h).ready := by
  induction is generalizing h with
  | nil => exact (Wiring.meets_pure _).2 ⟨rfl, rfl⟩
  | cons i rest ih =>
    have hbean : (linkBean b.context i).Meets b.assembly h fun r h' => r = .ok () ∧
        (b.reached h').ready = (b.reached h).ready ∧ ∀ j, b.toLink? h' j ≠ some true := by
      rw [linkBean, Wiring.meets_bind, Wiring.meets_current]
      dsimp only
      split
      · rename_i d slot hd hslot
        have hslot : (b.reached h).slots[i]? = some slot := hslot
        have htaken : slot.toLink = false := by
          have := hlink i
          rw [toLink?, Assembly.toLink?, hslot] at this
          simpa using this
        simp only [Wiring.meets_bind, Wiring.meets_once, htaken]
        refine (Wiring.meets_pure _).2 ⟨rfl, ?_, fun j => ?_⟩
        · exact ready_snoc_of_none rfl
        · rw [toLink?_append_singleton]
          show (if i = j then _ else _) ≠ _
          split
          · cases b.toLink? h j <;> simp
          · exact hlink j
      · exact (Wiring.meets_pure _).2 ⟨rfl, rfl, hlink⟩
    refine Wiring.meets_bind.2 (hbean.mono fun r h' hr => ?_)
    obtain ⟨rfl, hready, hlink'⟩ := hr
    exact (ih hlink').mono fun r h'' hr => ⟨hr.1, hr.2.trans hready⟩

end

end ConfigGraph
