import ConfigGraph.Proofs.Container.Conduct
import ConfigGraph.Proofs.Container.Cycles
import ConfigGraph.Proofs.Container.Singletons

/-!
# Reported cycles

A lookup that is refused with a circular dependency has come to a definition that is being wired, and
the chain that it reports is the chain of the definitions in progress (`Builder.ClosesCycle`). Such a
refusal has its grounds in what was done before it (`Builder.Grounds`), in every refresh, whatever
errors callbacks discard; while definitions are linked no lookup is refused
(`Builder.refresh_circular`).
-/

namespace ConfigGraph

open Wiring

namespace Builder

variable {b : Builder} {h k : List Act} {a : Act} {i : Nat} {e : ContainerError}

/-! ## Grounds of refusals -/

/-- At once after a history some lookup was refused with an error. -/
def Origin (e : ContainerError) (h : List Act) : Prop :=
  ∃ before j rest, h = before ++ .ask j :: .refuse j e :: rest

/-- A circular dependency is made up by a callback, or a lookup was refused with it at once. -/
def Explained (b : Builder) (e : ContainerError) (h : List Act) : Prop :=
  ∀ chain, e = .circularDependency chain → b.Invents e ∨ Origin e h

/-- What has to be so before an act that asks for a definition, enters it or refuses it. -/
def Grounds (b : Builder) (h : List Act) : Act → Prop
  | .ask i => i < b.definitions.length ∧ ∀ j, b.state? h j ≠ some .wired
  | .enter i _ => ∃ h', h = h' ++ [.ask i]
  | .refuse i e => (∀ a ∈ h, ¬ a.IsLinking) ∧
      (b.Refuses h i e ∨ (∃ h' a, h = h' ++ [a] ∧ a.Drops i) ∧ b.Explained e h)
  | _ => True

def Grounded (b : Builder) (h : List Act) : Prop :=
  ∀ before a rest, h = before ++ a :: rest → b.Grounds before a

theorem Grounded.snoc (hg : b.Grounded h) (ha : b.Grounds h a) : b.Grounded (h ++ [a]) := by
  intro before c rest he
  rcases snoc_eq_append_cons.1 he with ⟨rfl, rfl, rfl⟩ | ⟨rest', rfl, rfl⟩
  · exact ha
  · exact hg before c rest' rfl

theorem Grounded.of_append (hg : b.Grounded (h ++ k)) : b.Grounded h :=
  fun before a rest he => hg before a (rest ++ k) (by rw [he]; simp)

theorem Explained.append (he : b.Explained e h) (k : List Act) : b.Explained e (h ++ k) := by
  intro chain hchain
  refine (he chain hchain).imp_right ?_
  rintro ⟨before, j, rest, rfl⟩
  exact ⟨before, j, rest ++ k, by simp⟩

/-- Refreshing refuses lookups on such grounds only. -/
theorem conduct_grounded (b : Builder) : b.Conduct b.Grounded
    (fun e h => b.Grounded h ∧ b.Explained e h) (fun e h => b.Grounded h ∧ b.Explained e h) where
  plain he hg := ⟨hg, fun _ hchain => by rw [hchain] at he; exact he.elim⟩
  calm _ hg := hg.snoc trivial
  number _ hg := hg.snoc trivial
  lasting hbad hg := ⟨hg, hbad.2.append _⟩
  start := by
    intro before a rest he
    cases before <;> cases he
  proceed ha hg := by
    refine hg.snoc ?_
    cases ha with
    | ask hi hwired => exact ⟨hi, hwired⟩
    | enter h i name => exact ⟨h, rfl⟩
    | _ => trivial
  invented he hg := ⟨hg, fun _ _ => .inl he⟩
  weaken := id
  pass _ _ := .inr fun _ _ hgiven => hgiven.1
  step _ hx := hx
  undo ha hfailed := by
    refine ⟨hfailed.1.snoc ?_, hfailed.2.append _⟩
    cases ha with
    | drop ha => cases ha <;> trivial
    | _ => trivial
  refuse hr hu hg := by
    refine ⟨hg.snoc ⟨hu, .inl hr⟩, fun chain hchain => .inr ?_⟩
    cases hr with
    | failed => cases hchain
    | busy => exact ⟨_, _, [], by rw [List.append_assoc]; rfl⟩
  passOn ha hu hfailed := by
    exact ⟨hfailed.1.snoc ⟨hu, .inr ⟨⟨_, _, rfl, ha⟩, hfailed.2⟩⟩, hfailed.2.append _⟩

theorem grounded_acts (b : Builder) : b.Grounded b.acts := by
  have hends : (assemble b.context).Meets b.assembly [] fun _ h => b.Grounded h := by
    refine b.conduct_grounded.assemble_ends.mono fun r h hr => ?_
    cases r with
    | ok u => exact hr.1
    | error e => exact hr.elim (·.1.1) (·.1.1)
  exact hends

/-- A definition that was refused with a circular dependency at once had no instance and could not be
wired. -/
theorem refuses_circular {chain : List String}
    (hr : b.Refuses (h ++ [.ask i]) i (.circularDependency chain)) :
    ∃ d slot, b.definitions[i]? = some d ∧ (b.reached h).slots[i]? = some slot ∧
      slot.inst = none ∧ slot.state ≠ .failed ∧ (slot.state = .unwired → slot.toBuild = true →
        b.definitions.length ≤ (b.reached h).wirings.length) ∧
      chain = (b.reached h).trace ++ [d.bean.profile.name] := by
  generalize hk : h ++ [.ask i] = k at hr
  cases hr with
  | busy hd hslot hinst hfailed hroom =>
    obtain ⟨rfl, -⟩ := List.append_inj' hk rfl
    exact ⟨_, _, hd, hslot, hinst, hfailed, hroom, rfl⟩

/-- Such a definition is being wired itself. -/
theorem Lawful.wiring_of_refuses (hl : b.Lawful h) {chain : List String}
    (hwired : ∀ j, b.state? h j ≠ some .wired)
    (hr : b.Refuses (h ++ [.ask i]) i (.circularDependency chain)) :
    b.state? h i = some .wiring := by
  obtain ⟨d, slot, hd, hslot, hinst, hfailed, hroom, -⟩ := refuses_circular hr
  have hstate : b.state? h i = some slot.state := by
    rw [state?, Assembly.state?, hslot, Option.map_some]
  obtain ⟨hbuild, hready⟩ := hl.consistent.coherent slot (List.mem_of_getElem? hslot)
  cases hs : slot.state with
  | unwired =>
    have := hl.length_wirings_lt (hstate.trans (congrArg some hs))
    have := hroom hs (hbuild.2 hs)
    omega
  | wiring => rw [hstate, hs]
  | wired => exact absurd (hstate.trans (congrArg some hs)) (hwired i)
  | ready =>
    rw [hinst] at hready
    cases hready.2 hs
  | failed => exact absurd hs hfailed

/-! ## The chain -/

/-- While no definition is linked, a bean at work is a definition that is being wired. -/
theorem Lawful.mem_chain (hl : b.Lawful h) (hu : ∀ a ∈ h, ¬ a.IsLinking) :
    ∀ f ∈ (b.reached h).chain, ∃ j d, b.definitions[j]? = some d ∧
      f = ⟨d.bean.profile.name, some j⟩ := by
  induction h using List.reverseRecOn with
  | nil => exact fun f hf => nomatch hf
  | append_singleton h a ih =>
    obtain ⟨hl, ha⟩ := lawful_append_singleton.1 hl
    have hold := ih hl fun c hc => hu c (List.mem_append_left _ hc)
    have hnew : ¬ a.IsLinking := hu a (by simp)
    intro f hf
    rw [reached_append] at hf
    cases a with
    | enter i name =>
      obtain ⟨d, hd, rfl, -⟩ := ha
      rcases List.mem_append.1 hf with hf | hf
      · exact hold f hf
      · exact ⟨i, d, hd, List.mem_singleton.1 hf⟩
    | leave i success => exact hold f (List.dropLast_subset _ hf)
    | push f' => exact absurd trivial hnew
    | pop => exact absurd trivial hnew
    | _ => exact hold f hf

/-- So the names on the chain are those of the definitions that are being wired. -/
theorem Lawful.trace_eq (hl : b.Lawful h) (hu : ∀ a ∈ h, ¬ a.IsLinking) :
    (b.reached h).trace = b.context.names (b.reached h).wirings := by
  rw [Assembly.trace, Assembly.wirings, Context.names, List.filterMap_filterMap,
    ← List.filterMap_eq_map]
  refine List.filterMap_congr fun f hf => ?_
  obtain ⟨j, d, hd, rfl⟩ := hl.mem_chain hu f hf
  have hd : b.context.definitions[j]? = some d := hd
  simp [Context.profile?, hd]

/-- A single act enters a definition, or it leaves the order of those that are being wired. -/
theorem wirings_snoc (ha : ¬ a.IsLinking) :
    (∃ i name, a = .enter i name ∧
      (b.reached (h ++ [a])).wirings = (b.reached h).wirings ++ [i]) ∨
    (b.reached (h ++ [a])).wirings <+: (b.reached h).wirings := by
  rw [reached_append]
  cases a with
  | enter i name => exact .inl ⟨i, name, rfl, List.filterMap_append⟩
  | leave i success => exact .inr ((List.dropLast_prefix _).filterMap _)
  | push f => exact absurd trivial ha
  | pop => exact absurd trivial ha
  | _ => exact .inr List.prefix_rfl

/-- A definition that is being wired was asked for when those before it on the chain were being
wired. -/
theorem Grounded.requested (hg : b.Grounded h) (hu : ∀ a ∈ h, ¬ a.IsLinking) {front : List Nat}
    {y : Nat} (hp : front ++ [y] <+: (b.reached h).wirings) :
    ∃ h' name rest, h = h' ++ .ask y :: .enter y name :: rest ∧
      (b.reached h').wirings = front := by
  induction h using List.reverseRecOn with
  | nil =>
    have := hp.length_le
    simp [reached, assembly, Assembly.wirings] at this
  | append_singleton h a ih =>
    have hbefore (hp : front ++ [y] <+: (b.reached h).wirings) : ∃ h' name rest,
        h ++ [a] = h' ++ .ask y :: .enter y name :: rest ∧ (b.reached h').wirings = front := by
      obtain ⟨h', name, rest, rfl, hfront⟩ :=
        ih hg.of_append (fun c hc => hu c (List.mem_append_left _ hc)) hp
      exact ⟨h', name, rest ++ [a], by simp, hfront⟩
    rcases wirings_snoc (b := b) (h := h) (hu a (by simp)) with ⟨i, name, rfl, hw⟩ | hw
    · rw [hw, List.prefix_concat_iff] at hp
      rcases hp with hp | hp
      · obtain ⟨rfl, hy⟩ := List.append_inj' hp rfl
        cases hy
        obtain ⟨h', rfl⟩ := hg h _ [] rfl
        exact ⟨h', name, [], by simp, by rw [reached_append]; rfl⟩
      · exact hbefore hp
    · exact hbefore (hp.trans hw)

/-! ## Cycles -/

/-- A lookup of a definition closes a cycle, and a chain reports it: the chain names the definitions
that are being wired, from the outermost on, each of which was asked for while the one before it was
being wired, and the definition itself, which is one of them. -/
structure ClosesCycle (b : Builder) (h : List Act) (i : Nat) (chain : List String) : Prop where
  named : ∃ d, b.definitions[i]? = some d ∧
    chain = b.context.names (b.reached h).wirings ++ [d.bean.profile.name]
  closes : i ∈ (b.reached h).wirings
  wiring_iff : ∀ j, b.state? h j = some .wiring ↔ j ∈ (b.reached h).wirings
  nodup : (b.reached h).wirings.Nodup
  requested : ∀ front y, front ++ [y] <+: (b.reached h).wirings → ∃ h' name rest,
    h = h' ++ .ask y :: .enter y name :: rest ∧ (b.reached h').wirings = front

theorem Lawful.closesCycle {chain : List String} (hl : b.Lawful h)
    (hg : b.Grounded (h ++ [.ask i] ++ [.refuse i (.circularDependency chain)])) :
    b.ClosesCycle h i chain := by
  obtain ⟨hu, hr⟩ := hg (h ++ [.ask i]) (.refuse i (.circularDependency chain)) [] rfl
  have hu : ∀ a ∈ h, ¬ a.IsLinking := fun a ha => hu a (List.mem_append_left _ ha)
  obtain ⟨-, hwired⟩ := hg h (.ask i) [.refuse i (.circularDependency chain)] (by simp)
  have hr : b.Refuses (h ++ [.ask i]) i (.circularDependency chain) := by
    refine hr.resolve_right ?_
    rintro ⟨⟨h', a, he, ha⟩, -⟩
    obtain ⟨-, he⟩ := List.append_inj' he rfl
    cases he
    cases ha
  obtain ⟨d, -, hd, -, -, -, -, hchain⟩ := refuses_circular hr
  have hwiring := hl.wiring_of_refuses hwired hr
  exact {
    named := ⟨d, hd, by rw [hchain, hl.trace_eq hu]⟩
    closes := (hl.consistent.wiring_iff i).1 hwiring
    wiring_iff := hl.consistent.wiring_iff
    nodup := hl.consistent.nodup
    requested := fun front y hp => hg.of_append.of_append.requested hu hp }

/-! ## Linking -/

/-- Where all definitions have their instances lookups give these, or plain errors. -/
theorem lookups_equipped (b : Builder) (made : ContainerError → Prop) :
    Lookups b.assembly b.context (wireBean b.context) b.Equipped
      fun e h => (e.IsPlain ∨ made e) ∧ b.Equipped h where
  plain he hs := ⟨.inl he, hs⟩
  calm _ hs := hs.once rfl
  number _ hs := hs.once rfl
  lasting hbad hs := ⟨hbad.1, hs⟩
  fetch i hi h hs := by
    obtain ⟨inst, hinst⟩ := hs i hi
    exact (fetch_of_instance? hi hinst _).2 ((hs.once rfl).once rfl)

/-- There whatever a callback does fails with a plain error, or with one that it has made up. -/
theorem Equipped.perform (hs : b.Equipped h) {a : Action} {s : Assembly}
    (hrun : (perform b.context (wireBean b.context) a).run (b.reached h) = (.error e, s)) :
    e.IsPlain ∨ a.Invents e := by
  have hends := (b.lookups_equipped fun e => a.Invents e).perform a hs
    (.inr fun e k hbad => hbad.2) fun e k he hs => ⟨.inr he, hs⟩
  have hends : Ends b.Equipped (fun e h => (e.IsPlain ∨ a.Invents e) ∧ b.Equipped h)
    ((ConfigGraph.perform b.context (wireBean b.context) a).run (b.reached h)).1 _ := hends
  rw [hrun] at hends
  exact hends.1

/-- After a link callback has begun all definitions have their instances. -/
theorem Lawful.equipped_of_link {owner : Option Nat} {n : Nat}
    (hl : b.Lawful (h ++ .mark owner (.begins (.link n)) :: k)) :
    b.Equipped (h ++ .mark owner (.begins (.link n)) :: k) := by
  have hsplit : h ++ Act.mark owner (.begins (.link n)) :: k =
      h ++ [.mark owner (.begins (.link n))] ++ k := by
    simp
  rw [hsplit] at hl ⊢
  have hready := hl.of_append.ready_of_link rfl
  intro i hi
  have hi := hl.settled (.inl rfl) ((state?_snoc_of_none rfl).trans (hready i hi))
  exact Option.isSome_iff_exists.1 (hl.isSome_instance? hi)

/-- Reported cycles are real. Where a lookup is refused with a circular dependency at once, the chain
lists the names of the beans that are being wired and that of the requested one, which is among them.
Every other lookup that gives such an error has it from there, unless a callback has made it up. After
a link callback has begun no lookup is refused, and what callbacks do fails only with plain errors or
with such as they have made up. -/
theorem refresh_circular (b : Builder) :
    (∀ before i chain after,
      b.acts = before ++ .ask i :: .refuse i (.circularDependency chain) :: after →
        b.ClosesCycle before i chain) ∧
    (∀ before i chain after, b.acts = before ++ .refuse i (.circularDependency chain) :: after →
      b.Invents (.circularDependency chain) ∨ ∃ before' j after',
        before ++ [.refuse i (.circularDependency chain)] =
          before' ++ .ask j :: .refuse j (.circularDependency chain) :: after' ∧
        b.ClosesCycle before' j chain) ∧
    ∀ before owner n after, b.acts = before ++ .mark owner (.begins (.link n)) :: after →
      (∀ i e, .refuse i e ∉ after) ∧
      ∀ middle rest, after = middle ++ rest → ∀ a e s,
        (perform b.context (wireBean b.context) a).run
          (b.reached (before ++ .mark owner (.begins (.link n)) :: middle)) = (.error e, s) →
        e.IsPlain ∨ a.Invents e := by
  have hl := b.sound_acts.lawful
  have hg := b.grounded_acts
  have hcloses : ∀ before i chain after,
      b.acts = before ++ .ask i :: .refuse i (.circularDependency chain) :: after →
        b.ClosesCycle before i chain := by
    intro before i chain after he
    rw [he] at hl hg
    refine hl.of_append.closesCycle (.of_append (k := after) ?_)
    simpa using hg
  refine ⟨hcloses, fun before i chain after he => ?_,
    fun before owner n after he => ⟨fun i e hmem => ?_, ?_⟩⟩
  · have hsplit : b.acts = before ++ [.refuse i (.circularDependency chain)] ++ after := by
      rw [he]
      simp
    have horigin : b.Invents (.circularDependency chain) ∨ Origin (.circularDependency chain)
        (before ++ [.refuse i (.circularDependency chain)]) := by
      obtain ⟨-, hr | ⟨-, hex⟩⟩ := hg before (.refuse i (.circularDependency chain)) after he
      · cases hr with
        | busy => exact .inr ⟨_, _, [], by rw [List.append_assoc]; rfl⟩
      · exact hex.append _ chain rfl
    refine horigin.imp_right ?_
    rintro ⟨before', j, after', ho⟩
    refine ⟨before', j, after', ho, hcloses before' j chain (after' ++ after) ?_⟩
    rw [hsplit, ho]
    simp
  · obtain ⟨middle, rest, rfl⟩ := List.append_of_mem hmem
    obtain ⟨hu, -⟩ := hg (before ++ .mark owner (.begins (.link n)) :: middle) (.refuse i e) rest
      (by rw [he]; simp)
    exact hu _ (List.mem_append_right _ (List.mem_cons_self ..)) rfl
  · rintro middle rest rfl a e s hrun
    refine Equipped.perform (Lawful.equipped_of_link (.of_append (k := rest) ?_)) hrun
    simpa using he ▸ hl

example : ∃ events, (registered .empty looped).refresh =
    (.error (.circularDependency ["left", "right", "left"]), events) := ⟨_, rfl⟩

end Builder

end ConfigGraph
