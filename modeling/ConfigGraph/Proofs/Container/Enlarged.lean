import ConfigGraph.Proofs.Container.Abreast
import ConfigGraph.Proofs.Container.Refresh
import Mathlib.Data.Finset.Card

/-!
# One more definition

A definition is registered behind those of a builder (`Builder.add`), and none of them looks it up.
Then they are wired and linked as without it: the same is done, and the progress of the new
definition stays as it is, before it is wired (`wireEach_beside`) and when it is ready
(`linkEach_linking`). That there is more depth for wiring makes no difference, for it is never used
up: with each definition that is entered there are fewer that are unwired (`Beside.enter`).
-/

namespace ConfigGraph

open Wiring

/-- The definition whose progress an act changes. -/
def Act.slot? : Act → Option Nat
  | enter i _ | leave i _ | complete i _ | abandon i | takeLinks i => some i
  | _ => none

theorem Act.IsSilent.slot? {a : Act} (ha : a.IsSilent) : a.slot? = none := by
  cases ha <;> rfl

namespace Assembly

variable {s t : Assembly} {slot : Slot}

/-- The beans at work are the same, and there is the progress of one more definition. -/
structure Extends (s t : Assembly) (slot : Slot) : Prop where
  chain : t.chain = s.chain
  slots : t.slots = s.slots ++ [slot]

theorem chain_act (h : t.chain = s.chain) (a : Act) : (t.act a).chain = (s.act a).chain := by
  cases a <;> simp only [act, modifySlot, h]

theorem made_act (h : t.made = s.made) (a : Act) : (t.act a).made = (s.act a).made := by
  cases a <;> simp only [act, modifySlot, h]

theorem modify_append_of_lt {α : Type} {l m : List α} {i : Nat} (f : α → α) (hi : i < l.length) :
    (l ++ m).modify i f = l.modify i f ++ m := by
  refine List.ext_getElem? fun j => ?_
  rw [List.getElem?_modify]
  by_cases hj : j < l.length
  · rw [List.getElem?_append_left hj, List.getElem?_append_left (by simpa using hj),
      List.getElem?_modify]
  · have hij : i ≠ j := by omega
    rw [List.getElem?_append_right (by omega), List.getElem?_append_right (by simpa using hj),
      List.length_modify]
    simp [hij]

/-- A change of the last item. -/
theorem modify_length_append {α : Type} (front : List α) (a : α) (f : α → α) :
    (front ++ [a]).modify front.length f = front ++ [f a] := by
  induction front with
  | nil => rfl
  | cons c front ih => exact congrArg (c :: ·) ih

/-- An act on the definitions that both assemblies have. -/
theorem Extends.act (h : Extends s t slot) {a : Act}
    (ha : ∀ i, a.slot? = some i → i < s.slots.length) : Extends (s.act a) (t.act a) slot where
  chain := chain_act h.chain a
  slots := by
    have hmodify : ∀ i (f : Slot → Slot), a.slot? = some i →
        t.slots.modify i f = s.slots.modify i f ++ [slot] := fun i f hi => by
      rw [h.slots, modify_append_of_lt f (ha i hi)]
    cases a with
    | enter i name => exact hmodify i _ rfl
    | leave i success => exact hmodify i _ rfl
    | complete i inst => exact hmodify i _ rfl
    | abandon i => exact hmodify i _ rfl
    | takeLinks i => exact hmodify i _ rfl
    | _ => exact h.slots

/-- A change of the further definition. -/
theorem Extends.modifySlot (h : Extends s t slot) (f : Slot → Slot) :
    (t.modifySlot s.slots.length f).slots = s.slots ++ [f slot] := by
  show t.slots.modify _ f = _
  rw [h.slots, modify_length_append]

theorem Extends.getElem? (h : Extends s t slot) {i : Nat} (hi : i < s.slots.length) :
    t.slots[i]? = s.slots[i]? := by
  rw [h.slots, List.getElem?_append_left hi]

theorem Extends.getElem?_length (h : Extends s t slot) : t.slots[s.slots.length]? = some slot := by
  rw [h.slots]
  exact List.getElem?_concat_length ..

theorem Extends.instance? (h : Extends s t slot) {i : Nat} (hi : i < s.slots.length) :
    t.instance? i = s.instance? i := by
  rw [Assembly.instance?, h.getElem? hi, Assembly.instance?]

theorem Extends.trace (h : Extends s t slot) : t.trace = s.trace := by
  rw [Assembly.trace, h.chain, Assembly.trace]

end Assembly

namespace Builder

/-- A builder with one more definition. -/
def add (b : Builder) (d : Definition) : Builder :=
  { b with definitions := b.definitions ++ [d] }

/-- Registering a bean adds a definition: of a constructor, or of an object that has been made. -/
theorem register_eq_add (b : Builder) (bean : Bean) : ∃ b' object,
    b.register bean = b'.add ⟨bean, object⟩ ∧ b'.definitions = b.definitions ∧
      b'.store = b.store ∧ (bean.maker ≠ .object → b' = b ∧ object = none) := by
  unfold register
  split
  · rename_i hmaker
    exact ⟨{ b with
      made := b.made + (bean.instantiate b.made []).taken
      events := b.events ++ [.constructed (bean.instantiate b.made []).handle []] },
      some (bean.instantiate b.made []), rfl, rfl, rfl, fun h => absurd hmaker h⟩
  · exact ⟨b, none, rfl, rfl, rfl, fun _ => ⟨rfl, rfl⟩⟩

variable {b : Builder} {d : Definition} {h k : List Act} {a : Act} {i : Nat}

theorem widens_add (b : Builder) (d : Definition) : b.context.Widens (b.add d).context [d] :=
  ⟨rfl, rfl⟩

/-- No lookup of the definitions of a builder matches a definition. -/
def Avoids (b : Builder) (d : Definition) : Prop :=
  ∀ d' ∈ b.definitions, ∀ q, d'.bean.Asks q → q.matches d.bean.profile = false

theorem Avoids.same (hb : b.Avoids d) {d' : Definition} (hd : b.definitions[i]? = some d')
    (q : Lookup) (hq : d'.bean.Asks q) : b.context.Same (b.add d).context [d] q := by
  have hmatches := hb d' (List.mem_of_getElem? hd) q hq
  cases q with
  | container => exact ⟨rfl, fun hready => by cases hready⟩
  | _ =>
    intro d'' hd''
    rw [List.mem_singleton.1 hd'']
    exact hmatches

/-- The definitions that are unwired after a history. -/
def unwired (b : Builder) (h : List Act) : Finset Nat :=
  (Finset.range b.definitions.length).filter fun i => b.state? h i = some .unwired

theorem mem_unwired : i ∈ b.unwired h ↔ b.state? h i = some .unwired := by
  rw [unwired, Finset.mem_filter, Finset.mem_range]
  exact ⟨fun hi => hi.2, fun hi => ⟨state?_isSome.1 (Option.isSome_of_eq_some hi), hi⟩⟩

/-- No act makes a definition unwired. -/
theorem unwired_snoc : b.unwired (h ++ [a]) ⊆ b.unwired h := by
  intro j hj
  rw [mem_unwired] at hj ⊢
  rw [state?_append_singleton] at hj
  split at hj
  · rename_i i st hmove
    split at hj
    · obtain ⟨old, -, hst⟩ := Option.map_eq_some_iff.1 hj
      subst hst
      cases a with
      | leave i success => cases success <;> simp [Act.moves?] at hmove
      | _ => simp [Act.moves?] at hmove
    · exact hj
  · exact hj

/-- The same history with and without a definition that has not been wired. A depth of wiring
suffices for the other definitions that are unwired. -/
structure Beside (b : Builder) (d : Definition) (depth : Nat) (h k : List Act) : Prop where
  same : k = h
  reached : (b.reached h).Extends ((b.add d).reached h) d.slot
  made : ((b.add d).reached h).made = (b.reached h).made
  depth : (b.unwired h).card ≤ depth

theorem Beside.snoc {depth : Nat} (hR : b.Beside d depth h k)
    (ha : ∀ i, a.slot? = some i → i < b.definitions.length) :
    b.Beside d depth (h ++ [a]) (k ++ [a]) where
  same := by rw [hR.same]
  reached := by
    rw [reached_append, reached_append]
    exact hR.reached.act fun i hi => by
      rw [length_reached]
      exact ha i hi
  made := by
    rw [reached_append, reached_append]
    exact Assembly.made_act hR.made a
  depth := (Finset.card_le_card unwired_snoc).trans hR.depth

/-- Entering a definition takes up one of the depth. -/
theorem Beside.enter {depth : Nat} (hR : b.Beside d (depth + 1) h k)
    (hi : b.state? h i = some .unwired) (name : String) :
    b.Beside d depth (h ++ [.enter i name]) (k ++ [.enter i name]) := by
  have hlen : i < b.definitions.length := state?_isSome.1 (Option.isSome_of_eq_some hi)
  have hsnoc := hR.snoc (a := .enter i name) fun j hj => by
    cases hj
    exact hlen
  have hless : b.unwired (h ++ [.enter i name]) ⊂ b.unwired h := by
    refine Finset.ssubset_iff_subset_ne.2 ⟨unwired_snoc, fun heq => ?_⟩
    have hmem : i ∈ b.unwired (h ++ [.enter i name]) := heq ▸ mem_unwired.2 hi
    rw [mem_unwired, state?_move rfl hlen] at hmem
    cases hmem
  have := Finset.card_lt_card hless
  have := hR.depth
  exact ⟨hsnoc.same, hsnoc.reached, hsnoc.made, by omega⟩

theorem Beside.mono {depth depth' : Nat} (hR : b.Beside d depth h k) (hle : depth ≤ depth') :
    b.Beside d depth' h k :=
  ⟨hR.same, hR.reached, hR.made, hR.depth.trans hle⟩

theorem beside_nil (b : Builder) (d : Definition) :
    b.Beside d b.definitions.length [] [] where
  same := rfl
  reached := ⟨rfl, List.map_append⟩
  made := rfl
  depth := (Finset.card_filter_le _ _).trans (Finset.card_range _).le

end Builder

open Builder

variable {b : Builder} {d : Definition} {inner inner' : Nat → Wiring Instance} {depth : Nat}

/-! ## Wiring the other definitions -/

theorem Builder.Beside.abreast (hinner : ∀ i < b.definitions.length,
    Alike b.assembly (b.add d).assembly (b.Beside d depth) (inner i) (inner' i)) :
    Abreast b.assembly (b.add d).assembly (b.Beside d depth) b.context (b.add d).context [d]
      inner inner' where
  widens := b.widens_add d
  silent h k a ha hR := hR.snoc fun i hi => by
    rw [ha.slot?] at hi
    cases hi
  inner := hinner

theorem Builder.Beside.trace (h k : List Act) (hR : b.Beside d depth h k) :
    ((b.add d).assembly.after k).trace = (b.assembly.after h).trace := by
  rw [hR.same]
  exact hR.reached.trace

theorem Builder.Beside.marked (owner : Option Nat) : Marked (b.Beside d depth) owner owner :=
  fun h k m hR => hR.snoc fun i hi => by cases hi

theorem Builder.Beside.madeAlike :
    MadeAlike b.assembly (b.add d).assembly (b.Beside d depth) where
  made h k hR := by
    rw [hR.same]
    exact hR.made
  number h k taken hR := hR.snoc fun i hi => by cases hi

/-- A definition is wired in the same way when there is one more behind. -/
theorem wireNow_beside (hb : b.Avoids d) {i : Nat} {d' : Definition}
    (hd : b.definitions[i]? = some d') (hinner : ∀ i < b.definitions.length,
      Alike b.assembly (b.add d).assembly (b.Beside d depth) (inner i) (inner' i))
    {h k : List Act} (hR : b.Beside d (depth + 1) h k) (hi : b.state? h i = some .unwired) :
    AlikeAt b.assembly (b.add d).assembly (b.Beside d (depth + 1)) h k
      (wireNow b.context inner i d') (wireNow (b.add d).context inner' i d') := by
  have hlen : i < b.definitions.length := (List.getElem?_eq_some_iff.1 hd).1
  have ha := Beside.abreast hinner
  have honce : ∀ a : Act, a.slot? = some i →
      Alike b.assembly (b.add d).assembly (b.Beside d depth) (.once a) (.once a) :=
    fun a hslot => .once fun h k hR => hR.snoc fun j hj => by
      cases hslot.symm.trans hj
      exact hlen
  have hfinish : ∀ inst, Alike b.assembly (b.add d).assembly (b.Beside d depth)
      (finish i d'.bean inst) (finish i d'.bean inst) := by
    intro inst
    refine (Abreast.initialized (Beside.marked (some i)) (fun h k e he => ha.silent h k _ (.note he))
      d'.bean inst).attempt.bind fun r => ?_
    cases r with
    | error e => exact (honce _ rfl).bind fun _ => .fail e
    | ok inst => exact (honce _ rfl).bind fun _ => .pure inst
  refine AlikeAt.mono (Q := b.Beside d depth) ?_ fun h' k' hR' => hR'.mono (Nat.le_succ depth)
  refine AlikeAt.bind (.once (hR.enter hi _)) (fun _ h' k' hR' => ?_) fun _ _ hR' => hR'
  refine ((ha.build Beside.trace (Beside.marked (some i)) Beside.madeAlike
    (hb.same hd)).attempt.bind fun r => ?_) h' k' hR'
  cases r with
  | error e => exact (honce _ rfl).bind fun _ => .fail e
  | ok inst => exact (honce _ rfl).bind fun _ => hfinish inst

/-- What there is of a definition and its progress is the same in both places, and so is what is done
when that is ready, has failed or is being wired. -/
theorem wireBy_beside {i : Nat} (hi : i < b.definitions.length)
    {now now' : Definition → Wiring Instance}
    (hnow : ∀ d' h k, b.definitions[i]? = some d' → b.Beside d depth h k →
      b.state? h i = some .unwired →
      AlikeAt b.assembly (b.add d).assembly (b.Beside d depth) h k (now d') (now' d')) :
    Alike b.assembly (b.add d).assembly (b.Beside d depth) (wireBy b.context now i)
      (wireBy (b.add d).context now' i) := by
  refine fun h k hR => .current ?_
  obtain ⟨d', hd⟩ : ∃ d', b.definitions[i]? = some d' := ⟨_, List.getElem?_eq_getElem hi⟩
  have hd₁ : b.context.definitions[i]? = some d' := hd
  have hd₂ : (b.add d).context.definitions[i]? = some d' := (b.widens_add d).getElem? hi ▸ hd
  have hlen : i < (b.assembly.after h).slots.length := (length_reached b h).symm ▸ hi
  obtain ⟨slot, hslot⟩ : ∃ slot, (b.assembly.after h).slots[i]? = some slot :=
    ⟨_, List.getElem?_eq_getElem hlen⟩
  have hslot' : ((b.add d).assembly.after k).slots[i]? = some slot := by
    rw [hR.same]
    exact (hR.reached.getElem? hlen).trans hslot
  have hcircular : AlikeAt b.assembly (b.add d).assembly (b.Beside d depth) h k
      (circular d'.bean.profile.name) (circular d'.bean.profile.name) := by
    refine .current ?_
    rw [Beside.trace h k hR]
    exact .fail hR _
  rw [hd₁, hd₂, hslot, hslot']
  dsimp only
  cases slot.inst with
  | some inst => exact .pure hR inst
  | none =>
    cases hstate : slot.state with
    | unwired =>
      cases slot.toBuild with
      | false => exact hcircular
      | true => exact hnow d' h k hd hR (by rw [state?, Assembly.state?, reached, hslot]; simp [hstate])
    | failed => exact .fail hR _
    | wiring => exact hcircular
    | wired => exact hcircular
    | ready => exact hcircular

/-- The other definitions are wired, or found, in the same way, at every depth that suffices. -/
theorem wire_beside (hb : b.Avoids d) (depth : Nat) : ∀ depth', depth ≤ depth' →
    ∀ i < b.definitions.length, Alike b.assembly (b.add d).assembly (b.Beside d depth)
      (wire b.context depth i) (wire (b.add d).context depth' i) := by
  induction depth with
  | zero =>
    intro depth' _ i hi
    -- nothing is unwired, so neither side gets to where the depths matter
    have hnone : ∀ h k, b.Beside d 0 h k → b.state? h i ≠ some .unwired := fun h k hR hst => by
      have hmem := mem_unwired.2 hst
      rw [Finset.card_eq_zero.1 (Nat.le_zero.1 hR.depth)] at hmem
      exact absurd hmem (Finset.notMem_empty i)
    cases depth' with
    | zero => exact wireBy_beside hi fun d' h k _ hR hst => absurd hst (hnone h k hR)
    | succ depth' => exact wireBy_beside hi fun d' h k _ hR hst => absurd hst (hnone h k hR)
  | succ depth ih =>
    intro depth' hle i hi
    obtain ⟨depth', rfl⟩ : ∃ m, depth' = m + 1 := ⟨depth' - 1, by omega⟩
    exact wireBy_beside hi fun d' h k hd hR hst =>
      wireNow_beside hb hd (ih depth' (by omega)) hR hst

theorem wireEach_beside (hb : b.Avoids d) {is : List Nat} (his : ∀ i ∈ is, i < b.definitions.length) :
    Alike b.assembly (b.add d).assembly (b.Beside d b.definitions.length)
      (wireEach b.context is) (wireEach (b.add d).context is) := by
  have hle : b.definitions.length ≤ (b.add d).context.definitions.length := by
    rw [(b.widens_add d).definitions, List.length_append]
    exact Nat.le_add_right _ _
  have ha := Beside.abreast (d := d) (wire_beside hb b.definitions.length _ hle)
  induction is with
  | nil => exact .pure ()
  | cons i rest ih =>
    obtain ⟨hi, hrest⟩ := List.forall_mem_cons.1 his
    exact (ha.fetch hi).bind fun _ => ih hrest

/-! ## Linking the other definitions -/

/-- The same acts after one history and another, in which a further definition has been wired. The
definitions of the builder are ready, no instances are made, and some beans are at work now. -/
structure Builder.Linking (b : Builder) (d : Definition) (start start' : List Act) (slot : Slot)
    (frames : List Frame) (h k : List Act) : Prop where
  acts : ∃ l, h = start ++ l ∧ k = start' ++ l
  reached : (b.reached h).Extends ((b.add d).reached k) slot
  ready : ∀ i < b.definitions.length, ∃ inst, (b.reached h).instance? i = some inst
  made : (b.reached h).made = (b.reached start).made
  chain : (b.reached h).chain = (b.reached start).chain ++ frames

variable {start start' : List Act} {slot : Slot} {frames frames' : List Frame}

/-- An act that leaves the instances as they are. -/
theorem Builder.Linking.snoc {h k : List Act} {a : Act}
    (hR : b.Linking d start start' slot frames h k)
    (hslot : ∀ i, a.slot? = some i → i < b.definitions.length)
    (hinst : ∀ (s : Assembly) j, (s.act a).instance? j = s.instance? j)
    (hmade : ∀ s : Assembly, (s.act a).made = s.made)
    (hchain : ((b.reached h).act a).chain = (b.reached start).chain ++ frames') :
    b.Linking d start start' slot frames' (h ++ [a]) (k ++ [a]) where
  acts := by
    obtain ⟨l, rfl, rfl⟩ := hR.acts
    exact ⟨l ++ [a], List.append_assoc .., List.append_assoc ..⟩
  reached := by
    rw [reached_append, reached_append]
    exact hR.reached.act fun i hi => by
      rw [length_reached]
      exact hslot i hi
  ready i hi := by
    obtain ⟨inst, h⟩ := hR.ready i hi
    exact ⟨inst, by rw [reached_append]; exact (hinst _ i).trans h⟩
  made := by
    rw [reached_append]
    exact (hmade _).trans hR.made
  chain := by
    rw [reached_append]
    exact hchain

/-- An act that is about no definition leaves the progress of all as it is. -/
theorem Builder.Linking.once {h k : List Act} {a : Act}
    (hR : b.Linking d start start' slot frames h k) (hslots : ∀ s : Assembly, (s.act a).slots = s.slots)
    (hslot : a.slot? = none) (hmade : ∀ s : Assembly, (s.act a).made = s.made)
    (hchain : ((b.reached h).act a).chain = (b.reached start).chain ++ frames') :
    b.Linking d start start' slot frames' (h ++ [a]) (k ++ [a]) :=
  hR.snoc (fun i hi => by cases hslot.symm.trans hi)
    (fun s j => by rw [Assembly.instance?, hslots, Assembly.instance?]) hmade hchain

theorem Builder.Linking.takeLinks {h k : List Act} {i : Nat}
    (hR : b.Linking d start start' slot frames h k) (hi : i < b.definitions.length) :
    b.Linking d start start' slot frames (h ++ [.takeLinks i]) (k ++ [.takeLinks i]) :=
  hR.snoc (fun j hj => by
    cases hj
    exact hi) (fun s j => Assembly.instance?_act) (fun _ => rfl) hR.chain

theorem Builder.Linking.push {h k : List Act} (hR : b.Linking d start start' slot frames h k)
    (frame : Frame) :
    b.Linking d start start' slot (frames ++ [frame]) (h ++ [.push frame]) (k ++ [.push frame]) :=
  hR.once (fun _ => rfl) rfl (fun _ => rfl) (by
    rw [← List.append_assoc, ← hR.chain]
    rfl)

theorem Builder.Linking.pop {h k : List Act} {frame : Frame}
    (hR : b.Linking d start start' slot (frames ++ [frame]) h k) :
    b.Linking d start start' slot frames (h ++ [.pop]) (k ++ [.pop]) :=
  hR.once (fun _ => rfl) rfl (fun _ => rfl) (by
    show (b.reached h).chain.dropLast = _
    rw [hR.chain, ← List.append_assoc, List.dropLast_concat])

theorem Builder.Linking.abreast : Abreast b.assembly (b.add d).assembly
    (b.Linking d start start' slot frames) b.context (b.add d).context [d] (wireBean b.context)
    (wireBean (b.add d).context) where
  widens := b.widens_add d
  silent h k a ha hR := hR.once (fun s => by rw [ha.act_eq]) ha.slot? (fun s => by rw [ha.act_eq])
    (by rw [ha.act_eq]; exact hR.chain)
  inner i hi := alike_wire b.context (b.add d).context hi
    (by
      rw [(b.widens_add d).definitions, List.length_append]
      exact Nat.lt_add_right _ hi)
    (fun h k hR => by
      obtain ⟨inst, hinst⟩ := hR.ready i hi
      refine ⟨inst, hinst, ?_⟩
      exact (hR.reached.instance? ((length_reached b h).symm ▸ hi)).trans hinst) _ _

/-- The link callbacks of a definition run in the same way. -/
theorem linkBean_linking (hb : b.Avoids d) {i : Nat} (hi : i < b.definitions.length) :
    Alike b.assembly (b.add d).assembly (b.Linking d start start' slot frames)
      (linkBean b.context i) (linkBean (b.add d).context i) := by
  refine fun h k hR => .current ?_
  obtain ⟨d', hd⟩ : ∃ d', b.definitions[i]? = some d' := ⟨_, List.getElem?_eq_getElem hi⟩
  have hd₁ : b.context.definitions[i]? = some d' := hd
  have hd₂ : (b.add d).context.definitions[i]? = some d' := (b.widens_add d).getElem? hi ▸ hd
  have hlen : i < (b.assembly.after h).slots.length := (length_reached b h).symm ▸ hi
  obtain ⟨own, hown⟩ : ∃ own, (b.assembly.after h).slots[i]? = some own :=
    ⟨_, List.getElem?_eq_getElem hlen⟩
  have hown' : ((b.add d).assembly.after k).slots[i]? = some own :=
    (hR.reached.getElem? hlen).trans hown
  rw [hd₁, hd₂, hown, hown']
  refine AlikeAt.bind (.once (hR.takeLinks hi)) (fun _ h' k' hR' => ?_) fun _ _ hR' => hR'
  cases own.toLink with
  | false => exact .pure hR' ()
  | true =>
    cases own.inst with
    | none => exact .pure hR' ()
    | some inst =>
      refine (Alike.within _ (fun h k hR => hR.push _) (fun h k hR => hR.pop) ?_) h' k' hR'
      exact Linking.abreast.runLinks (fun h k hR => hR.reached.trace)
        (fun h k m hR => hR.once (fun _ => rfl) rfl (fun _ => rfl) hR.chain)
        (fun c hc q hq => hb.same hd q (.link hc hq)) _

theorem linkEach_linking (hb : b.Avoids d) {is : List Nat}
    (his : ∀ i ∈ is, i < b.definitions.length) :
    Alike b.assembly (b.add d).assembly (b.Linking d start start' slot frames)
      (linkEach b.context is) (linkEach (b.add d).context is) := by
  induction is with
  | nil => exact .pure ()
  | cons i rest ih =>
    obtain ⟨hi, hrest⟩ := List.forall_mem_cons.1 his
    exact (linkBean_linking hb hi).bind fun _ => ih hrest

end ConfigGraph
