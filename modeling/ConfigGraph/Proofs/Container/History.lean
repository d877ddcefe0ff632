import ConfigGraph.Container.Builder
import ConfigGraph.Proofs.Container.Assembly
import ConfigGraph.Proofs.Container.Course
import Mathlib.Data.List.Induction

/-!
# Histories

What is done while the definitions of a builder are wired and linked is a list of acts, a history.
In a lawful one (`Builder.Lawful`) each act has its grounds in those before it: a definition is
entered only while it is unwired, left only from the end of the chain, and its parts run in their
order. Whatever holds along lawful histories is proved here, by induction on the history: slots and
chain agree (`Lawful.consistent`), definitions go through their states in one direction
(`Lawful.next`), how far the parts of a definition have come is to be seen from its state
(`Lawful.progress_ready`), and definitions are listed in the order in which they become ready
(`Lawful.pairwise_ready`).
-/

namespace ConfigGraph

/-! ## Parts -/

namespace Bean

/-- The constructor of a bean and its injectors, in order. -/
def buildParts (b : Bean) : List Part :=
  .constructor :: (List.range b.injectors.length).map .injector

/-- The init callback of a bean, if it has one. -/
def initParts (b : Bean) : List Part :=
  if b.init.isSome then [.init] else []

/-- The link callbacks of a bean, in order. -/
def linkParts (b : Bean) : List Part :=
  (List.range b.links.length).map .link

/-- All parts of a bean, in the order in which they run. -/
def parts (b : Bean) : List Part :=
  b.buildParts ++ b.initParts ++ b.linkParts

end Bean

/-- Whether a mark is that of a link callback. -/
def Mark.isLink : Mark → Bool
  | begins (.link _) | ends (.link _) => true
  | _ => false

/-- The marks of parts that run one after the other, each to its end. -/
def course (ps : List Part) : List Mark :=
  ps.flatMap fun p => [.begins p, .ends p]

theorem mem_course {ps : List Part} {m : Mark} :
    m ∈ course ps ↔ ∃ p ∈ ps, m = .begins p ∨ m = .ends p := by
  simp [course]

theorem isLink_of_mem_linkParts {b : Bean} {m : Mark} (hm : m ∈ course b.linkParts) :
    m.isLink = true := by
  obtain ⟨p, hp, hm⟩ := mem_course.1 hm
  obtain ⟨k, -, rfl⟩ := List.mem_map.1 hp
  rcases hm with rfl | rfl <;> rfl

theorem course_append (ps qs : List Part) : course (ps ++ qs) = course ps ++ course qs :=
  List.flatMap_append

theorem course_append_cons (ps qs : List Part) (p : Part) :
    course (ps ++ p :: qs) = course ps ++ [.begins p, .ends p] ++ course qs := by
  rw [course_append, List.append_assoc]
  rfl

/-- The mark that an act is for a definition. -/
def Act.markOf? (i : Nat) : Act → Option Mark
  | mark owner m => if owner = some i then some m else none
  | _ => none

/-- How far the parts of a definition have come. -/
def progress (i : Nat) (h : List Act) : List Mark :=
  h.filterMap (Act.markOf? i)

theorem progress_append (i : Nat) (h k : List Act) :
    progress i (h ++ k) = progress i h ++ progress i k :=
  List.filterMap_append

theorem mem_progress {i : Nat} {h : List Act} {m : Mark} :
    m ∈ progress i h ↔ .mark (some i) m ∈ h := by
  rw [progress, List.mem_filterMap]
  constructor
  · rintro ⟨a, ha, hmark⟩
    cases a with
    | mark owner m' =>
      rw [Act.markOf?] at hmark
      split at hmark
      · rename_i howner
        cases hmark
        exact howner ▸ ha
      · cases hmark
    | _ => cases hmark
  · exact fun ha => ⟨_, ha, if_pos rfl⟩

/-! ## Lawful histories -/

/-- An act of a history with one more at its end is that one, or an act of the history before. -/
theorem snoc_eq_append_cons {h before rest : List Act} {a c : Act} :
    h ++ [a] = before ++ c :: rest ↔
      (before = h ∧ c = a ∧ rest = []) ∨
      ∃ rest', rest = rest' ++ [a] ∧ h = before ++ c :: rest' := by
  constructor
  · intro he
    rcases List.eq_nil_or_concat rest with rfl | ⟨rest, x, rfl⟩
    · obtain ⟨rfl, hac⟩ := List.append_inj' he rfl
      exact .inl ⟨rfl, (List.cons.inj hac).1.symm, rfl⟩
    · rw [List.concat_eq_append, ← List.cons_append, ← List.append_assoc] at he
      obtain ⟨rfl, hax⟩ := List.append_inj' he rfl
      cases hax
      exact .inr ⟨rest, List.concat_eq_append .., rfl⟩
  · rintro (⟨rfl, rfl, rfl⟩ | ⟨rest', rfl, rfl⟩)
    · rfl
    · rw [List.append_assoc, List.cons_append]

namespace Builder

/-- The assembly that the acts of a history lead to. -/
def reached (b : Builder) (h : List Act) : Assembly :=
  b.assembly.after h

/-- How far a definition has come after the acts of a history. -/
def state? (b : Builder) (h : List Act) (i : Nat) : Option State :=
  (b.reached h).state? i

/-- Whether the link callbacks of a definition have still to run after the acts of a history. -/
def toLink? (b : Builder) (h : List Act) (i : Nat) : Option Bool :=
  (b.reached h).toLink? i

/-- After a history all definitions are ready. -/
def AllReady (b : Builder) (h : List Act) : Prop :=
  ∀ i < b.definitions.length, b.state? h i = some .ready

/-- The link callbacks of a definition may run: they are taken, and all definitions are ready. -/
def MayLink (b : Builder) (h : List Act) (i : Nat) : Prop :=
  b.toLink? h i = some false ∧ b.AllReady h

/-- What has to be so after a history for an act to be the next one. -/
def Legal (b : Builder) (h : List Act) : Act → Prop
  | .enter i name => ∃ d, b.definitions[i]? = some d ∧ name = d.bean.profile.name ∧
      b.state? h i = some .unwired
  | .leave i success => (∃ outer name, (b.reached h).chain = outer ++ [⟨name, some i⟩]) ∧
      (success = true → ∃ d, b.definitions[i]? = some d ∧
        progress i h = course d.bean.buildParts)
  | .complete i _ => ∃ d, b.definitions[i]? = some d ∧ b.state? h i = some .wired ∧
      progress i h = course (d.bean.buildParts ++ d.bean.initParts)
  | .abandon i => b.state? h i = some .wired
  | .push f => f.wires = none
  | .pop => ∃ outer f, (b.reached h).chain = outer ++ [f] ∧ f.wires = none
  | .mark (some i) m => ∃ d, b.definitions[i]? = some d ∧ b.state? h i ≠ some .unwired ∧
      progress i h ++ [m] <+: course d.bean.parts ∧
      (m.isLink = true → b.MayLink h i)
  | .receive i => b.state? h i = some .ready
  | .note e => ∀ handle, e ≠ .destroyed handle
  | .mark none _ => False
  | .takeLinks _ | .number _ | .ask _ | .refuse .. => True

/-- Each act has its grounds in those before it. -/
def Lawful (b : Builder) (h : List Act) : Prop :=
  ∀ before a rest, h = before ++ a :: rest → b.Legal before a

variable {b : Builder} {h k : List Act} {a : Act} {i j : Nat}

theorem lawful_nil : b.Lawful [] := by
  intro before a rest he
  cases before <;> cases he

theorem lawful_append_singleton : b.Lawful (h ++ [a]) ↔ b.Lawful h ∧ b.Legal h a := by
  constructor
  · intro hl
    exact ⟨fun before c rest he => hl before c (rest ++ [a]) (by rw [he]; simp), hl h a [] rfl⟩
  · rintro ⟨hl, ha⟩ before c rest he
    rcases snoc_eq_append_cons.1 he with ⟨rfl, rfl, rfl⟩ | ⟨rest', rfl, rfl⟩
    · exact ha
    · exact hl before c rest' rfl

theorem Lawful.of_append (hl : b.Lawful (h ++ k)) : b.Lawful h :=
  fun before a rest he => hl before a (rest ++ k) (by rw [he]; simp)

/-- What holds at the start, and after a legal act if before it, holds after every lawful
history. -/
theorem Lawful.induct {P : List Act → Prop} (nil : P [])
    (snoc : ∀ h a, b.Lawful h → P h → b.Legal h a → P (h ++ [a])) (hl : b.Lawful h) : P h := by
  induction h using List.reverseRecOn with
  | nil => exact nil
  | append_singleton h a ih =>
    obtain ⟨hl, ha⟩ := lawful_append_singleton.1 hl
    exact snoc h a hl (ih hl) ha

@[simp]
theorem reached_append (b : Builder) (h k : List Act) :
    b.reached (h ++ k) = (b.reached h).after k :=
  Assembly.after_append h k

theorem length_reached (b : Builder) (h : List Act) :
    (b.reached h).slots.length = b.definitions.length :=
  (Assembly.length_after h).trans (List.length_map ..)

theorem state?_append_singleton : b.state? (h ++ [a]) j = match a.moves? with
    | some (i, st) => if i = j then (b.state? h j).map fun _ => st else b.state? h j
    | none => b.state? h j := by
  unfold state?
  rw [reached_append]
  exact Assembly.state?_act

theorem state?_snoc_of_none (ha : a.moves? = none) : b.state? (h ++ [a]) j = b.state? h j := by
  rw [state?_append_singleton, ha]

theorem state?_isSome : (b.state? h i).isSome ↔ i < b.definitions.length := by
  rw [← b.length_reached h]
  simp [state?, Assembly.state?]

theorem state?_nil (hi : i < b.definitions.length) : b.state? [] i = some .unwired := by
  show ((b.definitions.map Definition.slot)[i]?).map (·.state) = _
  rw [List.getElem?_map, List.getElem?_eq_getElem hi]
  rfl

/-! ## Slots and chain -/

theorem consistent_nil : (b.reached []).Consistent where
  coherent := by
    intro slot hmem
    obtain ⟨d, -, rfl⟩ := List.mem_map.1 hmem
    exact ⟨iff_of_true rfl rfl, iff_of_false (fun h => nomatch h) (fun h => nomatch h)⟩
  wiring_iff i := by
    refine iff_of_false (fun h => ?_) (fun h => nomatch h)
    have hi := state?_isSome.1 (Option.isSome_of_eq_some (h : b.state? [] i = _))
    have := (state?_nil hi).symm.trans h
    cases this
  nodup := List.nodup_nil

/-- A legal act takes a consistent assembly to a consistent one. -/
theorem Legal.consistent (hc : (b.reached h).Consistent) (ha : b.Legal h a) :
    ((b.reached h).act a).Consistent := by
  cases a with
  | enter i name =>
    obtain ⟨d, hd, -, hi⟩ := ha
    exact hc.enter hi
  | leave i success =>
    obtain ⟨⟨outer, name, hchain⟩, -⟩ := ha
    exact hc.leave hchain
  | complete i inst =>
    obtain ⟨d, -, hi, -⟩ := ha
    refine (hc.move .ready (ne_of_eq_of_ne hi (by simp)) (by simp) (fun _ => rfl)
      fun slot hslot hco => ?_).congr rfl rfl
    obtain ⟨hb, -⟩ := hco.of_busy (.inr (Assembly.state_of_state? hslot hi))
    simp [Slot.Coherent, hb]
  | abandon i =>
    refine hc.move .failed (ne_of_eq_of_ne ha (by simp)) (by simp) (fun _ => rfl)
      fun slot hslot hco => ?_
    obtain ⟨hb, hinst⟩ := hco.of_busy (.inr (Assembly.state_of_state? hslot ha))
    simp [Slot.Coherent, hb, hinst]
  | takeLinks i =>
    refine ⟨Assembly.coherent_modifySlot hc.coherent fun _ _ hco => hco, fun j => ?_, hc.nodup⟩
    rw [Assembly.state?_act]
    exact hc.wiring_iff j
  | push f =>
    refine hc.congr rfl ?_
    show (_ ++ [f]).filterMap _ = _
    rw [List.filterMap_append, List.filterMap_cons_none ha, List.filterMap_nil, List.append_nil]
    rfl
  | pop =>
    obtain ⟨outer, f, hchain, hf⟩ := ha
    refine hc.congr rfl ?_
    show (b.reached h).chain.dropLast.filterMap _ = (b.reached h).chain.filterMap _
    rw [hchain, List.dropLast_concat, List.filterMap_append, List.filterMap_cons_none hf,
      List.filterMap_nil, List.append_nil]
  | _ => exact hc.congr rfl rfl

/-- Along a lawful history slots and chain agree. -/
theorem Lawful.consistent (hl : b.Lawful h) : (b.reached h).Consistent := by
  refine hl.induct (P := fun h => (b.reached h).Consistent) consistent_nil fun h a _ hc ha => ?_
  rw [reached_append]
  exact ha.consistent hc

/-- A legal act takes a definition from its state to one that follows. -/
theorem Lawful.next (hl : b.Lawful h) (ha : b.Legal h a) {st : State}
    (hmove : a.moves? = some (i, st)) : ∃ old, b.state? h i = some old ∧ old.Next st := by
  cases a with
  | enter j name =>
    obtain ⟨rfl, rfl⟩ := Prod.mk.inj (Option.some.inj hmove)
    obtain ⟨d, -, -, hj⟩ := ha
    exact ⟨_, hj, .enter⟩
  | leave j success =>
    obtain ⟨rfl, rfl⟩ := Prod.mk.inj (Option.some.inj hmove)
    obtain ⟨⟨outer, name, hchain⟩, -⟩ := ha
    have hmem : j ∈ (b.reached h).wirings := by simp [Assembly.wirings, hchain]
    refine ⟨_, (hl.consistent.wiring_iff j).2 hmem, ?_⟩
    cases success
    · exact .breakOff
    · exact .build
  | complete j inst =>
    obtain ⟨rfl, rfl⟩ := Prod.mk.inj (Option.some.inj hmove)
    obtain ⟨d, -, hj, -⟩ := ha
    exact ⟨_, hj, .complete⟩
  | abandon j =>
    obtain ⟨rfl, rfl⟩ := Prod.mk.inj (Option.some.inj hmove)
    exact ⟨_, ha, .abandon⟩
  | _ => cases hmove

/-- What one legal act does to the state of a definition. -/
theorem Lawful.state?_snoc (hl : b.Lawful (h ++ [a])) (i : Nat) :
    b.state? (h ++ [a]) i = b.state? h i ∨
      ∃ old st, a.moves? = some (i, st) ∧ b.state? h i = some old ∧ old.Next st ∧
        b.state? (h ++ [a]) i = some st := by
  obtain ⟨hl, ha⟩ := lawful_append_singleton.1 hl
  rw [state?_append_singleton]
  split
  · rename_i j st hmove
    split
    · rename_i hij
      subst hij
      obtain ⟨old, hold, hnext⟩ := hl.next ha hmove
      exact .inr ⟨old, st, hmove, hold, hnext, by rw [hold]; rfl⟩
    · exact .inl rfl
  · exact .inl rfl

/-- A definition that is ready or has failed stays so. -/
theorem Lawful.settled (hl : b.Lawful (h ++ k)) {st : State} (hst : st = .ready ∨ st = .failed)
    (hi : b.state? h i = some st) : b.state? (h ++ k) i = some st := by
  induction k using List.reverseRecOn with
  | nil => rwa [List.append_nil]
  | append_singleton k a ih =>
    rw [← List.append_assoc] at hl ⊢
    have hk := ih hl.of_append
    rcases hl.state?_snoc i with heq | ⟨old, _, -, hold, hnext, -⟩
    · exact heq.trans hk
    · obtain rfl := Option.some.inj (hk.symm.trans hold)
      rcases hst with rfl | rfl <;> cases hnext

theorem Lawful.state?_of_instance? (hl : b.Lawful h) {inst : Instance}
    (hi : (b.reached h).instance? i = some inst) : b.state? h i = some .ready := by
  obtain ⟨slot, hslot, hinst⟩ := Option.bind_eq_some_iff.1 hi
  have hco := hl.consistent.coherent slot (List.mem_of_getElem? hslot)
  rw [state?, Assembly.state?, hslot, Option.map_some, hco.2.1 (Option.isSome_of_eq_some hinst)]

theorem Lawful.isSome_instance? (hl : b.Lawful h) (hi : b.state? h i = some .ready) :
    ((b.reached h).instance? i).isSome := by
  obtain ⟨slot, hslot, hstate⟩ := Option.map_eq_some_iff.1 hi
  have hinst := (hl.consistent.coherent slot (List.mem_of_getElem? hslot)).2.2 hstate
  rw [Assembly.instance?, hslot]
  exact hinst

/-! ## Parts and states -/

theorem progress_append_singleton : progress i (h ++ [a]) = progress i h ++ (a.markOf? i).toList :=
  progress_append i h [a]

theorem progress_snoc_of_none (ha : a.markOf? i = none) : progress i (h ++ [a]) = progress i h := by
  rw [progress_append_singleton, ha, Option.toList_none, List.append_nil]

theorem Legal.of_markOf? {m : Mark} (ha : b.Legal h a) (hm : a.markOf? i = some m) :
    ∃ d, b.definitions[i]? = some d ∧ b.state? h i ≠ some .unwired ∧
      progress i h ++ [m] <+: course d.bean.parts ∧
      (m.isLink = true → b.toLink? h i = some false) := by
  cases a with
  | mark owner m' =>
    rw [Act.markOf?] at hm
    split at hm
    · rename_i howner
      subst howner
      obtain rfl := Option.some.inj hm
      obtain ⟨d, hd, hi, hp, hlink⟩ := ha
      exact ⟨d, hd, hi, hp, fun hm => (hlink hm).1⟩
    · cases hm
  | _ => cases hm

/-- No part of a definition has begun before its wiring. -/
theorem Lawful.progress_unwired (hl : b.Lawful h) (hi : b.state? h i = some .unwired) :
    progress i h = [] := by
  induction h using List.reverseRecOn with
  | nil => rfl
  | append_singleton h a ih =>
    have hold : b.state? h i = some .unwired := by
      rcases hl.state?_snoc i with heq | ⟨_, _, -, -, hnext, hst⟩
      · exact heq.symm.trans hi
      · obtain rfl := Option.some.inj (hst.symm.trans hi)
        cases hnext
    obtain ⟨hl, ha⟩ := lawful_append_singleton.1 hl
    have hmark : a.markOf? i = none := by
      refine Option.eq_none_iff_forall_not_mem.2 fun m hm => ?_
      obtain ⟨d, -, hne, -⟩ := ha.of_markOf? hm
      exact hne hold
    rw [progress_snoc_of_none hmark, ih hl hold]

/-- The parts of a definition run in their order, each once. -/
theorem Lawful.progress_prefix (hl : b.Lawful h) {d : Definition}
    (hd : b.definitions[i]? = some d) : progress i h <+: course d.bean.parts := by
  refine hl.induct (P := fun h => progress i h <+: course d.bean.parts) List.nil_prefix
    fun h a _ hp ha => ?_
  rw [progress_append_singleton]
  cases hm : a.markOf? i with
  | none => rwa [Option.toList_none, List.append_nil]
  | some m =>
    obtain ⟨d', hd', -, hp', -⟩ := ha.of_markOf? hm
    obtain rfl := Option.some.inj (hd.symm.trans hd')
    exact hp'

/-- The constructor, the injectors and the init callback of a ready definition have run to their
ends. -/
theorem Lawful.progress_ready (hl : b.Lawful h) {d : Definition}
    (hd : b.definitions[i]? = some d) (hi : b.state? h i = some .ready) :
    course (d.bean.buildParts ++ d.bean.initParts) <+: progress i h := by
  induction h using List.reverseRecOn with
  | nil =>
    rw [state?_nil (List.getElem?_eq_some_iff.1 hd).1] at hi
    cases hi
  | append_singleton h a ih =>
    rw [progress_append_singleton]
    rcases hl.state?_snoc i with heq | ⟨old, st, hmove, -, -, hst⟩
    · exact (ih hl.of_append (heq.symm.trans hi)).trans (List.prefix_append _ _)
    · obtain rfl := Option.some.inj (hst.symm.trans hi)
      obtain ⟨hl, ha⟩ := lawful_append_singleton.1 hl
      cases a with
      | complete j inst =>
        obtain ⟨rfl, -⟩ := Prod.mk.inj (Option.some.inj hmove)
        obtain ⟨d', hd', -, hp⟩ := ha
        obtain rfl := Option.some.inj (hd.symm.trans hd')
        rw [hp]
        exact List.prefix_append _ _
      | _ => cases Act.moves?_eq_ready_iff.1 hmove

theorem toLink?_append_singleton : b.toLink? (h ++ [a]) j = match a with
    | .takeLinks i => if i = j then (b.toLink? h j).map fun _ => false else b.toLink? h j
    | _ => b.toLink? h j := by
  unfold toLink?
  rw [reached_append]
  exact Assembly.toLink?_act

theorem toLink?_snoc_of_ne (ha : ∀ i, a ≠ .takeLinks i) :
    b.toLink? (h ++ [a]) j = b.toLink? h j := by
  rw [toLink?_append_singleton]
  split
  · exact absurd rfl (ha _)
  · rfl

/-- No link callback of a definition has begun before they are taken. -/
theorem Lawful.not_isLink (hl : b.Lawful h) (hi : b.toLink? h i = some true) :
    ∀ m ∈ progress i h, m.isLink = false := by
  induction h using List.reverseRecOn with
  | nil => exact fun m hm => nomatch hm
  | append_singleton h a ih =>
    obtain ⟨hl, ha⟩ := lawful_append_singleton.1 hl
    have hold : b.toLink? h i = some true := by
      rw [toLink?_append_singleton] at hi
      split at hi
      · split at hi
        · cases hb : b.toLink? h i <;> rw [hb] at hi <;> cases hi
        · exact hi
      · exact hi
    intro m hm
    rw [progress_append_singleton, List.mem_append, Option.mem_toList] at hm
    rcases hm with hm | hm
    · exact ih hl hold m hm
    · obtain ⟨d, -, -, -, hlink⟩ := ha.of_markOf? hm
      by_contra hne
      cases hold.symm.trans (hlink (Bool.not_eq_false _ ▸ hne))

/-- A ready definition whose link callbacks are not taken has come to the end of all other parts. -/
theorem Lawful.progress_unlinked (hl : b.Lawful h) {d : Definition}
    (hd : b.definitions[i]? = some d) (hi : b.state? h i = some .ready)
    (hlink : b.toLink? h i = some (!d.bean.links.isEmpty)) :
    progress i h = course (d.bean.buildParts ++ d.bean.initParts) := by
  obtain ⟨rest, hrest⟩ := hl.progress_ready hd hi
  have hp := hl.progress_prefix hd
  rw [← hrest, Bean.parts, course_append (_ ++ _), List.prefix_append_right_inj] at hp
  have hnil : rest = [] := by
    cases hlinks : d.bean.links with
    | nil =>
      rw [Bean.linkParts, hlinks] at hp
      exact List.prefix_nil.1 hp
    | cons c links =>
      rw [hlinks] at hlink
      refine List.eq_nil_iff_forall_not_mem.2 fun m hm => ?_
      have hm' := hl.not_isLink hlink m (hrest ▸ List.mem_append_right _ hm)
      rw [isLink_of_mem_linkParts (hp.subset hm)] at hm'
      cases hm'
  rw [← hrest, hnil, List.append_nil]

/-! ## The order of readiness -/

theorem ready_append_singleton :
    (b.reached (h ++ [a])).ready = (b.reached h).ready ++ a.readies?.toList := by
  rw [reached_append]
  exact Assembly.ready_act

theorem ready_snoc_of_none (ha : a.readies? = none) :
    (b.reached (h ++ [a])).ready = (b.reached h).ready := by
  rw [ready_append_singleton, ha, Option.toList_none, List.append_nil]

theorem Lawful.mem_ready_iff (hl : b.Lawful h) (i : Nat) :
    i ∈ (b.reached h).ready ↔ b.state? h i = some .ready := by
  induction h using List.reverseRecOn with
  | nil =>
    refine iff_of_false (fun h => nomatch h) fun hi => ?_
    rw [state?_nil (state?_isSome.1 (Option.isSome_of_eq_some hi))] at hi
    cases hi
  | append_singleton h a ih =>
    rw [ready_append_singleton, List.mem_append, ih hl.of_append, Option.mem_toList]
    constructor
    · rintro (hi | hi)
      · exact hl.settled (.inl rfl) hi
      · obtain ⟨old, hold, -⟩ := (lawful_append_singleton.1 hl).1.next
          (lawful_append_singleton.1 hl).2 (Act.moves?_eq_ready_iff.2 hi)
        rw [state?_append_singleton, Act.moves?_eq_ready_iff.2 hi]
        show (if i = i then _ else _) = _
        rw [if_pos rfl, hold]
        rfl
    · intro hi
      rcases hl.state?_snoc i with heq | ⟨_, _, hmove, -, -, hst⟩
      · exact .inl (heq.symm.trans hi)
      · obtain rfl := Option.some.inj (hst.symm.trans hi)
        exact .inr (Act.moves?_eq_ready_iff.1 hmove)

/-- At some time in a history the first of two definitions is ready and the second one is not. -/
def ReadyBefore (b : Builder) (h : List Act) (i j : Nat) : Prop :=
  ∃ before after, h = before ++ after ∧ b.state? before i = some .ready ∧
    b.state? before j ≠ some .ready

/-- Definitions are listed in the order in which they become ready. -/
theorem Lawful.pairwise_ready (hl : b.Lawful h) :
    (b.reached h).ready.Pairwise (b.ReadyBefore h) := by
  induction h using List.reverseRecOn with
  | nil => exact .nil
  | append_singleton h a ih =>
    rw [ready_append_singleton]
    refine List.pairwise_append.2 ⟨(ih hl.of_append).imp ?_, ?_, fun i hi j hj => ?_⟩
    · rintro i j ⟨before, after, rfl, hij⟩
      exact ⟨before, after ++ [a], List.append_assoc .., hij⟩
    · cases a.readies? <;> simp
    · obtain ⟨hl, ha⟩ := lawful_append_singleton.1 hl
      obtain ⟨old, hold, hnext⟩ :=
        hl.next ha (Act.moves?_eq_ready_iff.2 (Option.mem_toList.1 hj))
      refine ⟨h, [a], rfl, (hl.mem_ready_iff i).1 hi, fun hready => ?_⟩
      obtain rfl := Option.some.inj (hready.symm.trans hold)
      cases hnext

theorem Lawful.nodup_ready (hl : b.Lawful h) : (b.reached h).ready.Nodup := by
  refine hl.pairwise_ready.imp ?_
  rintro i j ⟨before, after, -, hi, hj⟩ rfl
  exact hj hi

/-- Nothing is destroyed while definitions are wired and linked. -/
theorem Lawful.not_destroyed (hl : b.Lawful h) (handle : Handle) :
    .destroyed handle ∉ h.filterMap Act.noted? := by
  intro hmem
  obtain ⟨a, ha, hnoted⟩ := List.mem_filterMap.1 hmem
  obtain ⟨before, rest, rfl⟩ := List.append_of_mem ha
  have hlegal := hl before a rest rfl
  cases a with
  | note e => exact hlegal handle (Option.some.inj hnoted)
  | _ => cases hnoted

end Builder

end ConfigGraph
