import ConfigGraph.Proofs.Container.History
import ConfigGraph.Proofs.Container.Upkeep

/-!
# Work aside

While a part of a definition runs it may look up other beans, which are then wired aside. Such work
leaves the chain as it was, and it touches only definitions that had not begun
(`Builder.Advances`). Lookups, parameters and callbacks all work aside (`Wiring.Aside`), provided
that the function that wires what they find does (`Wires`).
-/

namespace ConfigGraph

namespace Builder

/-- A lookup that comes to a failed definition is refused at once, with the name of the
definition. -/
def Answered (b : Builder) (h : List Act) : Prop :=
  ∀ before i rest, h = before ++ .ask i :: rest → b.state? before i = some .failed →
    ∃ d rest', b.definitions[i]? = some d ∧
      rest = .refuse i (.wiringFailed d.bean.profile.name) :: rest'

/-- A lawful history in which every lookup of a failed definition has been answered. -/
structure Sound (b : Builder) (h : List Act) : Prop where
  lawful : b.Lawful h
  answered : b.Answered h

/-- From `h` to `h'` the parts of the owner go on, if there is one. Otherwise only definitions that
were unwired have come further. -/
structure Advances (b : Builder) (owner : Option Nat) (h h' : List Act) : Prop where
  sound : b.Sound h'
  chain : (b.reached h').chain = (b.reached h).chain
  state : ∀ j, b.state? h j ≠ some .unwired → b.state? h' j = b.state? h j
  toLink : ∀ j, b.toLink? h' j = b.toLink? h j
  parts : ∀ j, owner ≠ some j → b.state? h j ≠ some .unwired → progress j h' = progress j h

variable {b : Builder} {owner : Option Nat} {h h' h'' : List Act} {a : Act} {i : Nat}

theorem sound_nil : b.Sound [] where
  lawful := lawful_nil
  answered := by
    intro before i rest he
    cases before <;> cases he

/-- A history is continued by a legal act, if that is not a lookup of a failed definition. -/
theorem Sound.snoc (hs : b.Sound h) (ha : b.Legal h a)
    (hask : ∀ i, a = .ask i → b.state? h i ≠ some .failed) : b.Sound (h ++ [a]) where
  lawful := lawful_append_singleton.2 ⟨hs.lawful, ha⟩
  answered := by
    intro before i rest he hi
    rcases snoc_eq_append_cons.1 he with ⟨rfl, rfl, rfl⟩ | ⟨rest, rfl, rfl⟩
    · exact absurd hi (hask i rfl)
    · obtain ⟨d, rest', hd, rfl⟩ := hs.answered before i rest rfl hi
      exact ⟨d, rest' ++ [a], hd, rfl⟩

/-- A failed definition is looked up, and the lookup is refused. -/
theorem Sound.refused (hs : b.Sound h) {d : Definition} (hd : b.definitions[i]? = some d) :
    b.Sound (h ++ [.ask i] ++ [.refuse i (.wiringFailed d.bean.profile.name)]) where
  lawful := lawful_append_singleton.2 ⟨lawful_append_singleton.2 ⟨hs.lawful, trivial⟩, trivial⟩
  answered := by
    intro before j rest he hj
    rcases snoc_eq_append_cons.1 he with ⟨-, hac, -⟩ | ⟨rest, rfl, he'⟩
    · cases hac
    · rcases snoc_eq_append_cons.1 he' with ⟨rfl, hac, rfl⟩ | ⟨rest, rfl, rfl⟩
      · cases hac
        exact ⟨d, [], hd, rfl⟩
      · obtain ⟨d', rest', hd', rfl⟩ := hs.answered before j rest rfl hj
        exact ⟨d', rest' ++ [.ask i] ++ [_], hd', rfl⟩

theorem Advances.refl (hs : b.Sound h) : b.Advances owner h h :=
  ⟨hs, rfl, fun _ _ => rfl, fun _ => rfl, fun _ _ _ => rfl⟩

theorem Advances.trans (h₁ : b.Advances owner h h') (h₂ : b.Advances owner h' h'') :
    b.Advances owner h h'' where
  sound := h₂.sound
  chain := h₂.chain.trans h₁.chain
  state j hj := by
    have hst := h₁.state j hj
    exact (h₂.state j (hst ▸ hj)).trans hst
  toLink j := (h₂.toLink j).trans (h₁.toLink j)
  parts j ho hj := (h₂.parts j ho (h₁.state j hj ▸ hj)).trans (h₁.parts j ho hj)

theorem Advances.own (ha : b.Advances none h h') : b.Advances owner h h' :=
  ⟨ha.sound, ha.chain, ha.state, ha.toLink, fun j _ => ha.parts j (by simp)⟩

/-- A single act that stands for no progress. -/
theorem Advances.once (hs : b.Sound h) (ha : b.Legal h a)
    (hask : ∀ i, a = .ask i → b.state? h i ≠ some .failed)
    (hchain : ((b.reached h).act a).chain = (b.reached h).chain) (hmove : a.moves? = none)
    (htake : ∀ i, a ≠ .takeLinks i) (hmark : ∀ j, owner ≠ some j → a.markOf? j = none) :
    b.Advances owner h (h ++ [a]) where
  sound := hs.snoc ha hask
  chain := by rw [reached_append]; exact hchain
  state _ _ := state?_snoc_of_none hmove
  toLink _ := toLink?_snoc_of_ne htake
  parts j ho _ := progress_snoc_of_none (hmark j ho)

theorem Advances.ask (hs : b.Sound h) (hi : b.state? h i ≠ some .failed) :
    b.Advances owner h (h ++ [.ask i]) :=
  .once hs trivial (fun j hj => by cases hj; exact hi) rfl rfl (by simp) fun _ _ => rfl

/-- What has an instance is ready, so that a lookup may be given it. -/
theorem Advances.receive (hs : b.Sound h) {inst : Instance}
    (hi : (b.reached h).instance? i = some inst) : b.Advances owner h (h ++ [.receive i]) :=
  .once hs (hs.lawful.state?_of_instance? hi) (by simp) rfl rfl (by simp) fun _ _ => rfl

theorem Advances.refuse (hs : b.Sound h) (e : ContainerError) :
    b.Advances owner h (h ++ [.refuse i e]) :=
  .once hs trivial (by simp) rfl rfl (by simp) fun _ _ => rfl

end Builder

namespace Wiring

open Builder

/-- Work aside: whatever comes of it, no definition that had begun has come further. -/
def Aside (b : Builder) {α : Type} (x : Wiring α) : Prop :=
  ∀ h, b.Sound h → x.Meets b.assembly h fun _ h' => b.Advances none h h'

namespace Aside

variable {b : Builder} {α β : Type} {x : Wiring α} {f : α → Wiring β}

theorem pure (a : α) : (Pure.pure a : Wiring α).Aside b :=
  fun _ hs => (meets_pure a).2 (.refl hs)

theorem fail (e : ContainerError) : (Wiring.fail e : Wiring α).Aside b :=
  fun _ hs => (meets_fail e).2 (.refl hs)

theorem bind (hx : x.Aside b) (hf : ∀ a, (f a).Aside b) : (x >>= f).Aside b := by
  refine fun h hs => meets_bind.2 ((hx h hs).mono fun r h' ha => ?_)
  cases r with
  | ok a => exact (hf a h' ha.sound).mono fun _ _ ha' => ha.trans ha'
  | error e => exact ha

/-- What is upheld while definitions come further from a history is done aside. -/
theorem of_upholds (hx : ∀ h, b.Sound h →
    x.Upholds b.assembly (b.Advances none h) fun _ => b.Advances none h) : x.Aside b := by
  refine fun h hs => (hx h hs h (.refl hs)).mono fun r h' hr => ?_
  cases r with
  | ok a => exact hr
  | error e => exact hr

end Aside

/-- While definitions come further from a history, notes and numbers change nothing. -/
theorem upkeep_advances (b : Builder) (h : List Act) :
    Upkeep (b.Advances none h) fun _ => b.Advances none h where
  plain _ ha := ha
  calm he ha := by
    refine ha.trans (.once ha.sound ?_ (by simp) rfl rfl (by simp) fun _ _ => rfl)
    rintro handle rfl
    cases he
  number _ ha := ha.trans (.once ha.sound trivial (by simp) rfl rfl (by simp) fun _ _ => rfl)
  lasting _ ha := ha

end Wiring

open Wiring Builder

/-- A lookup that fails is refused, and nothing is done after that. -/
theorem fetch_error {s₀ : Assembly} (wire : Nat → Wiring Instance) (i : Nat) (h : List Act) :
    (fetch wire i).Meets s₀ h fun r h' => ∀ e, r = .error e →
      ∃ h'', h' = h'' ++ [.refuse i e] := by
  simp only [fetch, meets_bind, meets_once, meets_attempt]
  refine .of_forall fun r h' => ?_
  cases r with
  | ok inst =>
    simp only [meets_bind, meets_once, meets_pure]
    simp
  | error e =>
    simp only [meets_bind, meets_once, meets_fail]
    rintro _ ⟨⟩
    exact ⟨h', rfl⟩

/-- A callback that fails notes its error at last. -/
theorem runCallback_error {s₀ : Assembly} (ctx : Context) (wire : Nat → Wiring Instance)
    (phase : Phase) (handle : Handle) (c : Callback) (h : List Act) :
    (runCallback ctx wire phase handle c).Meets s₀ h fun r h' => ∀ e, r = .error e →
      c.swallow = false ∧
        ∃ h'', h' = h'' ++ [.note (.acted phase handle c.action.name (.error e))] := by
  simp only [runCallback, Wiring.note, meets_bind, meets_attempt, meets_once]
  refine .of_forall fun r h' => ?_
  cases r with
  | ok outcome => exact (meets_pure _).2 (by simp)
  | error e =>
    dsimp only
    split
    · exact (meets_pure _).2 (by simp)
    · rename_i hswallow
      rw [meets_fail]
      rintro _ ⟨⟩
      exact ⟨Bool.not_eq_true _ ▸ hswallow, h', rfl⟩

/-- The function that wires a definition works aside, and what it gives is the instance of the
definition. A definition that has failed is refused. -/
structure Wires (b : Builder) (wire : Nat → Wiring Instance) : Prop where
  aside : ∀ i h, b.Sound h → (wire i).Meets b.assembly h fun r h' =>
    b.Advances none h h' ∧ ∀ inst, r = .ok inst → (b.reached h').instance? i = some inst
  refused : ∀ i d h, b.Lawful h → b.definitions[i]? = some d → b.state? h i = some .failed →
    (wire i).Meets b.assembly h fun r h' =>
      r = .error (.wiringFailed d.bean.profile.name) ∧ h' = h

namespace Wires

variable {b : Builder} {wire : Nat → Wiring Instance} (hw : Wires b wire)

include hw

/-- The lookup of a failed definition is refused at once, and nothing else is done. -/
theorem fetch_failed {i : Nat} {d : Definition} {h : List Act} (hl : b.Lawful h)
    (hd : b.definitions[i]? = some d) (hi : b.state? h i = some .failed) :
    (fetch wire i).Meets b.assembly h fun r h' => r = .error (.wiringFailed d.bean.profile.name) ∧
      h' = h ++ [.ask i] ++ [.refuse i (.wiringFailed d.bean.profile.name)] := by
  have hl' : b.Lawful (h ++ [.ask i]) := lawful_append_singleton.2 ⟨hl, trivial⟩
  have hi' : b.state? (h ++ [.ask i]) i = some .failed := (state?_snoc_of_none rfl).trans hi
  simp only [fetch, meets_bind, meets_once, meets_attempt]
  refine (hw.refused i d _ hl' hd hi').mono fun r h' hr => ?_
  obtain ⟨rfl, rfl⟩ := hr
  simp only [meets_bind, meets_once, meets_fail, and_self]

theorem fetch_meets (i : Nat) {h : List Act} (hs : b.Sound h) :
    (fetch wire i).Meets b.assembly h fun r h' =>
      b.Advances none h h' ∧ ∀ inst, r = .ok inst → (b.reached h').instance? i = some inst := by
  by_cases hi : b.state? h i = some .failed
  · -- The lookup alone is not answered: it goes together with the refusal.
    obtain ⟨d, hd⟩ : ∃ d, b.definitions[i]? = some d := by
      rw [← Option.isSome_iff_exists, isSome_getElem?]
      exact state?_isSome.1 (Option.isSome_of_eq_some hi)
    refine (hw.fetch_failed hs.lawful hd hi).mono fun r h' ⟨hr, hh'⟩ => ?_
    subst hr hh'
    refine ⟨?_, by simp⟩
    exact {
      sound := hs.refused hd
      chain := by simp [Assembly.act]
      state := fun j _ => by rw [state?_snoc_of_none rfl, state?_snoc_of_none rfl]
      toLink := fun j => by rw [toLink?_snoc_of_ne (by simp), toLink?_snoc_of_ne (by simp)]
      parts := fun j _ _ => by rw [progress_snoc_of_none rfl, progress_snoc_of_none rfl] }
  · have hask : b.Advances none h (h ++ [.ask i]) := .ask hs hi
    simp only [fetch, meets_bind, meets_once, meets_attempt]
    refine (hw.aside i _ hask.sound).mono fun r h' hr => ?_
    obtain ⟨ha, hinst⟩ := hr
    cases r with
    | ok inst =>
      simp only [meets_bind, meets_once, meets_pure, Except.ok.injEq, forall_eq']
      refine ⟨(hask.trans ha).trans (.receive ha.sound (hinst inst rfl)), ?_⟩
      rw [reached_append]
      exact hinst inst rfl
    | error e =>
      simp only [meets_bind, meets_once, meets_fail, reduceCtorEq, false_implies, implies_true,
        and_true]
      exact (hask.trans ha).trans (.refuse ha.sound e)

theorem lookups (ctx : Context) (h : List Act) :
    Lookups b.assembly ctx wire (b.Advances none h) fun _ => b.Advances none h where
  toUpkeep := upkeep_advances b h
  fetch i _ h' ha := by
    refine (hw.fetch_meets i ha.sound).mono fun r h'' hr => ?_
    cases r with
    | ok inst => exact ha.trans hr.1
    | error e => exact ha.trans hr.1

variable (ctx : Context)

theorem supplyAll (f : Function) : (supplyAll ctx wire f).Aside b :=
  .of_upholds fun h _ => (hw.lookups ctx h).supplyAll f

theorem runCallback (phase : Phase) (hd : Handle) (c : Callback) :
    (runCallback ctx wire phase hd c).Aside b := by
  refine .of_upholds fun h _ h' ha => ?_
  have hl := hw.lookups ctx h
  refine runCallback_ends hl.toUpkeep (hl.perform c.action ha (.inr fun _ _ ha => ha)
    fun _ _ _ ha => ha) (fun _ h'' ha => ?_) (.inr fun _ _ ha => ha)
  exact ha.trans (.once ha.sound (by simp [Builder.Legal]) (by simp) rfl rfl (by simp) fun _ _ => rfl)

theorem runInjector (bean : Bean) (inst : Instance) (j : Injector) :
    (runInjector ctx wire bean inst j).Aside b := by
  cases j with
  | act c => exact (hw.runCallback ctx .inject _ c).bind fun _ => .pure _
  | bindSelf tag =>
    unfold ConfigGraph.runInjector
    dsimp only
    split
    · exact .pure _
    · exact .fail _

end Wires

section

variable {b : Builder}

theorem makeInstance_aside (bean : Bean) (deps : List Supplied) :
    (makeInstance bean deps).Aside b :=
  .of_upholds fun h _ => (upkeep_advances b h).makeInstance bean deps

theorem runConstructor_aside (bean : Bean) (refusal : Option String) (deps : List Supplied) :
    (runConstructor bean refusal deps).Aside b :=
  .of_upholds fun h _ => (upkeep_advances b h).runConstructor bean refusal deps

theorem runInit_aside (bean : Bean) (init : Init) (inst : Instance) :
    (runInit bean init inst).Aside b :=
  .of_upholds fun h _ => (upkeep_advances b h).runInit bean init inst

end

end ConfigGraph
