import ConfigGraph.Container.Assembly

/-!
# Acts on assemblies

What a single act does to an assembly: to the state of a definition (`Assembly.state?_act`), to its
instance and its link callbacks, to the order of readiness and to the events. In a consistent assembly
(`Assembly.Consistent`) slots and chain agree.
-/

namespace ConfigGraph

/-! ## States -/

/-- The states to which a definition can go from a state. -/
inductive State.Next : State → State → Prop where
  | enter : Next unwired wiring
  | build : Next wiring wired
  | breakOff : Next wiring failed
  | complete : Next wired ready
  | abandon : Next wired failed

/-- The definition that an act brings to another state, and that state. -/
def Act.moves? : Act → Option (Nat × State)
  | enter i _ => some (i, .wiring)
  | leave i success => some (i, if success then .wired else .failed)
  | complete i _ => some (i, .ready)
  | abandon i => some (i, .failed)
  | _ => none

/-- The definition that an act makes ready. -/
def Act.readies? : Act → Option Nat
  | complete i _ => some i
  | _ => none

/-- The event that an act notes. -/
def Act.noted? : Act → Option Event
  | note e => some e
  | _ => none

theorem Act.moves?_eq_ready_iff {a : Act} {i : Nat} :
    a.moves? = some (i, .ready) ↔ a.readies? = some i := by
  cases a with
  | leave j success => cases success <;> simp [moves?, readies?]
  | _ => simp [moves?, readies?]

/-- A slot is to be built exactly while it is unwired, and has an instance exactly once it is
ready. -/
def Slot.Coherent (slot : Slot) : Prop :=
  (slot.toBuild = true ↔ slot.state = .unwired) ∧ (slot.inst.isSome = true ↔ slot.state = .ready)

theorem Slot.Coherent.of_busy {slot : Slot} (hc : slot.Coherent)
    (hst : slot.state = .wiring ∨ slot.state = .wired) :
    slot.toBuild = false ∧ slot.inst = none := by
  obtain ⟨hb, hinst⟩ := hc
  rcases hst with hst | hst <;>
  · simp only [hst, reduceCtorEq, iff_false, Bool.not_eq_true, Option.isSome_eq_false_iff,
      Option.isNone_iff_eq_none] at hb hinst
    exact ⟨hb, hinst⟩

namespace Assembly

/-- How far the definition with a number has come. -/
def state? (s : Assembly) (i : Nat) : Option State :=
  (s.slots[i]?).map (·.state)

/-- Whether the link callbacks of the definition with a number have still to run. -/
def toLink? (s : Assembly) (i : Nat) : Option Bool :=
  (s.slots[i]?).map (·.toLink)

/-- The definitions whose wiring is in progress, the outermost first. -/
def wirings (s : Assembly) : List Nat :=
  s.chain.filterMap (·.wires)

/-- What is to be built is unwired, what has an instance is ready, and what is being wired is on the
chain, once. -/
structure Consistent (s : Assembly) : Prop where
  coherent : ∀ slot ∈ s.slots, slot.Coherent
  wiring_iff : ∀ i, s.state? i = some .wiring ↔ i ∈ s.wirings
  nodup : s.wirings.Nodup

variable {s : Assembly} {a : Act} {i j : Nat}

@[simp]
theorem after_nil : s.after [] = s := rfl

@[simp]
theorem after_append (as bs : List Act) : s.after (as ++ bs) = (s.after as).after bs :=
  List.foldl_append

@[simp]
theorem after_cons (a : Act) (as : List Act) : s.after (a :: as) = (s.act a).after as := rfl

theorem state_of_state? {slot : Slot} {st : State} (hslot : s.slots[i]? = some slot)
    (hi : s.state? i = some st) : slot.state = st := by
  rw [state?, hslot] at hi
  exact Option.some.inj hi

theorem getElem?_modifySlot (f : Slot → Slot) :
    (s.modifySlot i f).slots[j]? = (s.slots[j]?).map fun slot => if i = j then f slot else slot :=
  List.getElem?_modify ..

theorem state?_modifySlot (f : Slot → Slot) : (s.modifySlot i f).state? j =
    if i = j then (s.slots[j]?).map fun slot => (f slot).state else s.state? j := by
  unfold state?
  rw [getElem?_modifySlot, Option.map_map]
  split <;> rfl

/-- What a change leaves alone in each slot is as it was. -/
theorem map_modifySlot {β : Type} {f : Slot → Slot} (g : Slot → β)
    (hf : ∀ slot, g (f slot) = g slot) : ((s.modifySlot i f).slots[j]?).map g = (s.slots[j]?).map g := by
  rw [getElem?_modifySlot, Option.map_map]
  congr 1
  funext slot
  show g (if i = j then f slot else slot) = g slot
  split
  · exact hf slot
  · rfl

theorem state?_act : (s.act a).state? j = match a.moves? with
    | some (i, st) => if i = j then (s.state? j).map fun _ => st else s.state? j
    | none => s.state? j := by
  have hset : ∀ (i : Nat) (st : State) (f : Slot → Slot), (∀ slot, (f slot).state = st) →
      (s.modifySlot i f).state? j = if i = j then (s.state? j).map fun _ => st else s.state? j := by
    intro i st f hf
    rw [state?_modifySlot]
    simp only [hf, state?, Option.map_map, Function.comp_def]
  cases a with
  | enter i name => exact hset i _ _ fun _ => rfl
  | leave i success => exact hset i _ _ fun _ => rfl
  | complete i inst => exact hset i _ _ fun _ => rfl
  | abandon i => exact hset i _ _ fun _ => rfl
  | takeLinks i => exact map_modifySlot _ fun _ => rfl
  | _ => rfl

theorem coherent_modifySlot {f : Slot → Slot} (hs : ∀ slot ∈ s.slots, slot.Coherent)
    (hf : ∀ slot, s.slots[i]? = some slot → slot.Coherent → (f slot).Coherent) :
    ∀ slot ∈ (s.modifySlot i f).slots, slot.Coherent := by
  intro slot hmem
  obtain ⟨j, hj⟩ := List.mem_iff_getElem?.1 hmem
  rw [getElem?_modifySlot, Option.map_eq_some_iff] at hj
  obtain ⟨old, hold, rfl⟩ := hj
  have hc := hs old (List.mem_of_getElem? hold)
  split
  · rename_i hij
    subst hij
    exact hf old hold hc
  · exact hc

theorem Consistent.congr {t : Assembly} (hs : s.Consistent) (hslots : t.slots = s.slots)
    (hwirings : t.wirings = s.wirings) : t.Consistent where
  coherent := by rw [hslots]; exact hs.coherent
  wiring_iff i := by rw [hwirings, ← hs.wiring_iff, state?, state?, hslots]
  nodup := by rw [hwirings]; exact hs.nodup

/-- A definition that is not on the chain goes to another state. -/
theorem Consistent.move (st : State) {f : Slot → Slot} (hs : s.Consistent)
    (hi : s.state? i ≠ some .wiring) (hst : st ≠ .wiring) (hf : ∀ slot, (f slot).state = st)
    (hco : ∀ slot, s.slots[i]? = some slot → slot.Coherent → (f slot).Coherent) :
    (s.modifySlot i f).Consistent where
  coherent := coherent_modifySlot hs.coherent hco
  wiring_iff j := by
    show _ ↔ j ∈ s.wirings
    rw [state?_modifySlot, ← hs.wiring_iff]
    split
    · rename_i hij
      subst hij
      refine iff_of_false (fun h => ?_) hi
      obtain ⟨slot, -, h⟩ := Option.map_eq_some_iff.1 h
      exact hst ((hf slot).symm.trans h)
    · rfl
  nodup := hs.nodup

theorem Consistent.enter {name : String} (hs : s.Consistent) (hi : s.state? i = some .unwired) :
    (s.act (.enter i name)).Consistent := by
  have hnot : i ∉ s.wirings := fun h => by
    have := (hs.wiring_iff i).2 h
    rw [hi] at this
    cases this
  have hw : (s.act (.enter i name)).wirings = s.wirings ++ [i] := List.filterMap_append
  refine ⟨coherent_modifySlot hs.coherent fun slot hslot hc => ?_, fun j => ?_, ?_⟩
  · have hst : slot.state = .unwired := state_of_state? hslot hi
    exact ⟨iff_of_false (fun h => nomatch h) (fun h => nomatch h),
      iff_of_false (fun h => nomatch (hc.2.1 h).symm.trans hst) (fun h => nomatch h)⟩
  · rw [state?_act, hw, List.mem_append, List.mem_singleton, ← hs.wiring_iff]
    show (if i = j then _ else _) = _ ↔ _
    split
    · rename_i hij
      subst hij
      rw [hi]
      exact iff_of_true rfl (.inr rfl)
    · rename_i hij
      exact ⟨.inl, fun h => h.resolve_right (Ne.symm hij)⟩
  · rw [hw]
    exact List.nodup_append.2 ⟨hs.nodup, by simp, fun a ha b hb => by
      rw [List.mem_singleton.1 hb]
      exact fun h => hnot (h ▸ ha)⟩

theorem Consistent.leave {success : Bool} {outer : List Frame} {name : String} (hs : s.Consistent)
    (hchain : s.chain = outer ++ [⟨name, some i⟩]) : (s.act (.leave i success)).Consistent := by
  have hw : s.wirings = (s.act (.leave i success)).wirings ++ [i] := by
    show s.chain.filterMap _ = s.chain.dropLast.filterMap _ ++ _
    rw [hchain, List.dropLast_concat, List.filterMap_append]
    rfl
  have hnodup := hs.nodup
  rw [hw, List.nodup_append] at hnodup
  obtain ⟨hnodup, -, hnot⟩ := hnodup
  have hi : s.state? i = some .wiring := (hs.wiring_iff i).2 (by rw [hw]; simp)
  refine ⟨coherent_modifySlot hs.coherent fun slot hslot hc => ?_, fun j => ?_, hnodup⟩
  · obtain ⟨hb, hinst⟩ := hc.of_busy (.inl (state_of_state? hslot hi))
    cases success <;> simp [Slot.Coherent, hb, hinst]
  · rw [state?_act]
    show (if i = j then _ else _) = _ ↔ _
    split
    · rename_i hij
      subst hij
      rw [hi]
      refine iff_of_false (fun h => ?_) fun h => hnot i h i (List.mem_singleton_self i) rfl
      cases success <;> cases h
    · rename_i hij
      rw [hs.wiring_iff, hw, List.mem_append, List.mem_singleton]
      exact ⟨fun h => h.resolve_right (Ne.symm hij), .inl⟩

theorem toLink?_act : (s.act a).toLink? j = match a with
    | .takeLinks i => if i = j then (s.toLink? j).map fun _ => false else s.toLink? j
    | _ => s.toLink? j := by
  cases a with
  | enter i name => exact map_modifySlot _ fun _ => rfl
  | leave i success => exact map_modifySlot _ fun _ => rfl
  | complete i inst => exact map_modifySlot _ fun _ => rfl
  | abandon i => exact map_modifySlot _ fun _ => rfl
  | takeLinks i =>
    show (s.modifySlot i _).toLink? j = if i = j then _ else _
    unfold toLink?
    rw [getElem?_modifySlot, Option.map_map, Option.map_map]
    split <;> rfl
  | _ => rfl

theorem instance?_eq : s.instance? j = ((s.slots[j]?).map (·.inst)).join := by
  unfold instance?
  cases s.slots[j]? <;> rfl

theorem instance?_act : (s.act a).instance? j = match a with
    | .complete i inst => if i = j then (s.slots[j]?).map fun _ => inst else s.instance? j
    | _ => s.instance? j := by
  have hmod : ∀ (i : Nat) (f : Slot → Slot), (∀ slot, (f slot).inst = slot.inst) →
      (s.modifySlot i f).instance? j = s.instance? j := by
    intro i f hf
    rw [instance?_eq, instance?_eq, map_modifySlot _ hf]
  cases a with
  | enter i name => exact hmod i _ fun _ => rfl
  | leave i success => exact hmod i _ fun _ => rfl
  | complete i inst =>
    show ((s.modifySlot i _).slots[j]?).bind _ = if i = j then _ else _
    rw [getElem?_modifySlot, instance?]
    cases s.slots[j]? with
    | none => simp
    | some slot => split <;> simp [*]
  | abandon i => exact hmod i _ fun _ => rfl
  | takeLinks i => exact hmod i _ fun _ => rfl
  | _ => rfl

theorem instance?_complete {inst : Instance} (hi : i < s.slots.length) :
    (s.act (.complete i inst)).instance? i = some inst := by
  rw [instance?_act, List.getElem?_eq_getElem hi]
  exact if_pos rfl

theorem length_act : (s.act a).slots.length = s.slots.length := by
  cases a <;> first | rfl | exact List.length_modify ..

theorem length_after (acts : List Act) : (s.after acts).slots.length = s.slots.length := by
  induction acts generalizing s with
  | nil => rfl
  | cons a acts ih => rw [after_cons, ih, length_act]

theorem ready_act : (s.act a).ready = s.ready ++ a.readies?.toList := by
  cases a <;> first | rfl | exact (List.append_nil _).symm

theorem ready_after (acts : List Act) :
    (s.after acts).ready = s.ready ++ acts.filterMap Act.readies? := by
  induction acts generalizing s with
  | nil => exact (List.append_nil _).symm
  | cons a acts ih =>
    rw [after_cons, ih, ready_act, List.append_assoc, List.filterMap_cons]
    cases a.readies? <;> rfl

theorem events_act : (s.act a).events = s.events ++ a.noted?.toList := by
  cases a <;> first | rfl | exact (List.append_nil _).symm

theorem events_after (acts : List Act) :
    (s.after acts).events = s.events ++ acts.filterMap Act.noted? := by
  induction acts generalizing s with
  | nil => exact (List.append_nil _).symm
  | cons a acts ih =>
    rw [after_cons, ih, events_act, List.append_assoc, List.filterMap_cons]
    cases a.noted? <;> rfl

end Assembly

end ConfigGraph
