import ConfigGraph.Proofs.Container.Apart

/-!
# Beans made apart or registered

A builder has been refreshed, and a further bean is made apart in its container, or it is registered
behind the others and the builder refreshed with it. With it the others are wired, then the bean, then
the others are linked, then the bean (`Builder.assemble_add`). Where it is wired it goes the same way
as apart, up to its init callback (`Builder.fetch_add`), and where it is linked its link callbacks do
(`Builder.linkBean_add`), for in both places the others have the same instances and the same bean is
at work (`Builder.facing_entered`, `Builder.facing_linked`). So the same comes of it
(`Builder.wireApart_registered`).
-/

namespace ConfigGraph

open Wiring

/-! ## Courses of one bean -/

theorem wireEach_append (ctx : Context) (is js : List Nat) :
    wireEach ctx (is ++ js) = wireEach ctx is >>= fun _ => wireEach ctx js := by
  induction is with
  | nil => rfl
  | cons i rest ih =>
    rw [wireEach, bind_assoc, ← ih]
    rfl

theorem linkEach_append (ctx : Context) (is js : List Nat) :
    linkEach ctx (is ++ js) = linkEach ctx is >>= fun _ => linkEach ctx js := by
  induction is with
  | nil => rfl
  | cons i rest ih =>
    rw [linkEach, bind_assoc, ← ih]
    rfl

/-- A definition that has not been wired is wired now. -/
theorem wire_unwired {ctx : Context} {t₀ : Assembly} {i depth : Nat} {d : Definition} {k : List Act}
    (hd : ctx.definitions[i]? = some d) (hslot : (t₀.after k).slots[i]? = some d.slot)
    {post : Except ContainerError Instance → List Act → Prop} :
    (wire ctx (depth + 1) i).Meets t₀ k post ↔
      (wireNow ctx (wire ctx depth) i d).Meets t₀ k post := by
  simp only [wire, wireBy, meets_bind, meets_current, hd, hslot, Definition.slot]

/-- A definition that has not been wired is looked up. -/
theorem fetch_unwired {ctx : Context} {t₀ : Assembly} {i depth : Nat} {d : Definition}
    {k : List Act} {post : Except ContainerError Instance → List Act → Prop}
    (hd : ctx.definitions[i]? = some d) (hslot : (t₀.after k).slots[i]? = some d.slot)
    (hbuild : (build ctx (wire ctx depth) (some i) d).Meets t₀
      (k ++ [Act.ask i] ++ [Act.enter i d.bean.profile.name]) fun r k₁ =>
        (∀ e, r = .error e →
          post (.error e) (k₁ ++ [Act.leave i false] ++ [Act.refuse i e])) ∧
        ∀ built, r = .ok built →
          (initialized (some i) d.bean built).Meets t₀ (k₁ ++ [Act.leave i true]) fun r k₂ =>
            (∀ e, r = .error e → post (.error e) (k₂ ++ [Act.abandon i] ++ [Act.refuse i e])) ∧
            ∀ inst, r = .ok inst →
              post (.ok inst) (k₂ ++ [Act.complete i inst] ++ [Act.receive i])) :
    (fetch (wire ctx (depth + 1)) i).Meets t₀ k post := by
  have hslot' : (t₀.after (k ++ [.ask i])).slots[i]? = some d.slot := by
    rw [Assembly.after_append]
    exact hslot
  rw [fetch, meets_bind, meets_once, meets_bind, meets_attempt, wire_unwired hd hslot', wireNow,
    meets_bind, meets_once, meets_bind, meets_attempt]
  refine hbuild.mono fun r k₁ hend => ?_
  obtain ⟨herror, hok⟩ := hend
  cases r with
  | error e =>
    simp only [meets_bind, meets_once, meets_fail]
    exact herror e rfl
  | ok built =>
    simp only [finish, meets_bind, meets_once, meets_attempt]
    refine (hok built rfl).mono fun r k₂ hend => ?_
    obtain ⟨herror, hok⟩ := hend
    cases r with
    | error e =>
      simp only [meets_bind, meets_once, meets_fail]
      exact herror e rfl
    | ok inst =>
      simp only [meets_bind, meets_once, meets_pure]
      exact hok inst rfl

/-- A bean is made apart: it is built up to its init callback, and its link callbacks run. -/
theorem wireApart_meets {ctx : Context} {inner : Nat → Wiring Instance} {d : Definition}
    {s₀ : Assembly} {h : List Act} {post : Except ContainerError Instance → List Act → Prop}
    (hbuild : (build ctx inner none d >>= initialized none d.bean).Meets s₀
      (h ++ [.push ⟨d.bean.profile.name, none⟩]) fun r h₁ =>
        (∀ e, r = .error e → post (.error e) (h₁ ++ [.pop])) ∧
        ∀ inst, r = .ok inst →
          (runLinks ctx inner none inst.handle d.bean.links).Meets s₀ h₁ fun r h₂ =>
            post (r.map fun _ => inst) (h₂ ++ [.pop])) :
    (wireApart ctx inner d).Meets s₀ h post := by
  refine (meets_within _).2 (meets_bind.2 ((meets_bind.1 hbuild).mono fun r h₁ hend => ?_))
  cases r with
  | error e => exact hend.1 e rfl
  | ok built =>
    refine meets_bind.2 (Meets.mono hend fun r h₂ hend => ?_)
    cases r with
    | error e => exact hend.1 e rfl
    | ok inst =>
      refine meets_bind.2 ((hend.2 inst rfl).mono fun r h₃ hend => ?_)
      cases r with
      | error e => exact hend
      | ok u => exact (meets_pure _).2 hend

/-- A definition that is ready is linked. -/
theorem linkBean_ready {ctx : Context} {t₀ : Assembly} {i : Nat} {d : Definition} {inst : Instance}
    {k : List Act} {post : Except ContainerError Unit → List Act → Prop}
    (hd : ctx.definitions[i]? = some d)
    (hslot : (t₀.after k).slots[i]? = some ⟨.ready, false, some inst, d.slot.toLink⟩)
    (hnone : d.bean.links = [] → post (.ok ()) (k ++ [.takeLinks i]))
    (hlinks : d.bean.links ≠ [] →
      (runLinks ctx (wireBean ctx) (some i) inst.handle d.bean.links).Meets t₀
        (k ++ [.takeLinks i] ++ [.push ⟨d.bean.profile.name, none⟩]) fun r k' =>
          post r (k' ++ [.pop])) :
    (linkBean ctx i).Meets t₀ k post := by
  simp only [linkBean, meets_bind, meets_current, meets_once, hd, hslot, Definition.slot]
  cases hempty : d.bean.links.isEmpty with
  | true => exact (meets_pure _).2 (hnone (List.isEmpty_iff.1 hempty))
  | false => exact (meets_within _).2 (hlinks (List.isEmpty_eq_false_iff.1 hempty))

/-! ## A builder with one more definition -/

/-- A bean looks up neither itself nor the container. -/
def Definition.LooksElsewhere (d : Definition) : Prop :=
  ∀ q, d.bean.Asks q → q ≠ .container ∧ q.matches d.bean.profile = false

namespace Builder

theorem widens_finished (b : Builder) (d : Definition) :
    b.finished.context.Widens (b.add d).context [d] :=
  ⟨rfl, rfl⟩

theorem wireBean_add (b : Builder) (d : Definition) :
    wireBean (b.add d).context = wire (b.add d).context (b.definitions.length + 1) := by
  funext i
  rw [wireBean, (b.widens_add d).definitions, List.length_append]
  rfl

theorem getElem?_add (b : Builder) (d : Definition) :
    (b.add d).context.definitions[b.definitions.length]? = some d :=
  List.getElem?_concat_length ..

end Builder

theorem Definition.LooksElsewhere.same {d : Definition} (hd : d.LooksElsewhere) (b : Builder)
    (q : Lookup) (hq : d.bean.Asks q) : b.finished.context.Same (b.add d).context [d] q := by
  obtain ⟨hne, hmatches⟩ := hd q hq
  cases q with
  | container => exact absurd rfl hne
  | _ =>
    intro d' hd'
    rw [List.mem_singleton.1 hd']
    exact hmatches

namespace Builder

/-- What is done while the definitions are wired. -/
def wiringActs (b : Builder) : List Act :=
  (wireEach b.context b.context.indices).acts b.assembly

/-- What is done while the definitions are linked. -/
def linkingActs (b : Builder) : List Act :=
  (linkEach b.context b.context.indices).acts (b.reached b.wiringActs)

/-- What is done until a definition behind the others is wired. -/
def enteredActs (b : Builder) (d : Definition) : List Act :=
  b.wiringActs ++ [.ask b.definitions.length] ++ [.enter b.definitions.length d.bean.profile.name]

variable {b : Builder} {d : Definition} {k : List Act} {slot : Slot}

/-- What is done for a bean made apart and what is done when it is registered behind the others, and
what comes of both. -/
def Registered (b : Builder) (d : Definition) (r : Except ContainerError Instance) (h : List Act)
    (r' : Except ContainerError Unit) (k : List Act) : Prop :=
  (∃ building linking,
    (k = b.wiringActs ++ building ++ b.linkingActs ++ linking ∨
      k = b.wiringActs ++ building ∧ linking = [] ∧ ∃ e, r = .error e) ∧
    progress b.definitions.length h = [] ∧
    (building ++ linking).filter Act.isWork =
      (h.filter Act.isWork).map (Act.ownedBy b.definitions.length)) ∧
  r' = r.map (fun _ => ()) ∧
  ∀ inst, r = .ok inst → ((b.add d).reached k).instance? b.definitions.length = some inst

/-- Building a bean fails, or its init callback does. The others are not linked then. -/
theorem Registered.failed {h : List Act} (hR : Alongside b.definitions.length [] b.wiringActs h k)
    (e : ContainerError) : b.Registered d (.error e) (h ++ [.pop]) (.error e) k := by
  obtain ⟨l, m, rfl, rfl, hmarks, hwork⟩ := hR.snoc_left (a := .pop) rfl
  refine ⟨⟨m, [], .inr ⟨rfl, rfl, e, rfl⟩, hmarks, ?_⟩, rfl, by simp⟩
  rw [List.append_nil]
  exact hwork

/-- The bean is made up to its init callback, and its link callbacks run after those of the
others. -/
theorem Registered.linked {h h' m : List Act} {inst : Instance}
    (hR : Alongside b.definitions.length [] b.wiringActs h (b.wiringActs ++ m))
    (hR' : Alongside b.definitions.length h (b.wiringActs ++ m ++ b.linkingActs) h' k)
    (hinst : ((b.add d).reached k).instance? b.definitions.length = some inst)
    (r : Except ContainerError Unit) :
    b.Registered d (r.map fun _ => inst) (h' ++ [.pop]) r k := by
  obtain ⟨l, m, rfl, hm, hmarks, hwork⟩ := hR
  obtain ⟨l', m', hl, rfl, hmarks', hwork'⟩ := hR'.snoc_left (a := .pop) rfl
  cases List.append_cancel_left hm
  rw [hl]
  refine ⟨⟨m, m', .inl rfl, ?_, ?_⟩, ?_, fun inst' hi => ?_⟩
  · rw [progress_append, hmarks']
    exact (List.append_nil _).trans hmarks
  · rw [List.filter_append, hwork, hwork', List.filter_append, List.map_append]
  · cases r <;> rfl
  · cases r with
    | error e => cases hi
    | ok u =>
      cases hi
      exact hinst

section

variable (hrun : ((assemble b.context).run b.assembly).1 = .ok ())

include hrun

/-- Refreshing that succeeds wires all definitions, then links them. -/
theorem assemble_ends :
    ((wireEach b.context b.context.indices).Meets b.assembly [] fun r h =>
      r = .ok () ∧ h = b.wiringActs) ∧
    ((linkEach b.context b.context.indices).Meets b.assembly b.wiringActs fun r h =>
      r = .ok () ∧ h = b.acts) ∧
    b.acts = b.wiringActs ++ b.linkingActs := by
  have hends : (assemble b.context).Meets b.assembly [] fun r h => r = .ok () ∧ h = b.acts :=
    ⟨hrun, rfl⟩
  have hwired : ((wireEach b.context b.context.indices).run b.assembly).1 = .ok () := by
    rw [assemble, run_bind] at hrun
    generalize (wireEach b.context b.context.indices).run b.assembly = r at hrun ⊢
    obtain ⟨e | u, s⟩ := r
    · cases hrun
    · rfl
  have hwired : (wireEach b.context b.context.indices).Meets b.assembly [] fun r h =>
      r = .ok () ∧ h = b.wiringActs := ⟨hwired, rfl⟩
  have hlinked := (meets_bind.1 hends).of_end hwired
  exact ⟨hwired, hlinked, hlinked.2.symm⟩

/-- Once all definitions are wired no bean is at work, and they have the instances that the container
holds. -/
theorem wired_ends : (b.reached b.wiringActs).chain = [] ∧
    ∀ i < b.definitions.length, ∃ inst, (b.reached b.wiringActs).instance? i = some inst ∧
      b.finished.assembly.instance? i = some inst := by
  obtain ⟨hwired, -, hacts⟩ := assemble_ends hrun
  obtain ⟨ha, hready, -⟩ := (wireEach_meets b.context.indices sound_nil).of_end hwired
  refine ⟨ha.chain, fun i hi => ?_⟩
  have hall : b.AllReady b.wiringActs := fun j hj => hready rfl j (List.mem_range.2 hj)
  obtain ⟨inst, hinst⟩ := hall.exists_instance ha.sound.lawful hi
  exact ⟨inst, hinst, instance?_finished hacts hinst⟩

/-- The definitions are wired as without the one behind them. -/
theorem wireEach_add (hb : b.Avoids d) :
    (wireEach (b.add d).context b.context.indices).Meets (b.add d).assembly [] (fun r k =>
      r = .ok () ∧ k = b.wiringActs) ∧
    b.Beside d b.definitions.length b.wiringActs b.wiringActs := by
  obtain ⟨hr, hR⟩ := Meets.of_end
    (wireEach_beside hb (fun _ => List.mem_range.1) [] [] (beside_nil b d)) (assemble_ends hrun).1
  have hsame := hR.same
  rw [hsame] at hR
  exact ⟨⟨hr, hsame⟩, hR⟩

/-- The definitions are linked as without the one behind them, whatever has been done for that. -/
theorem linkEach_add (hb : b.Avoids d)
    (hk : (b.reached b.wiringActs).Extends ((b.add d).reached (b.wiringActs ++ k)) slot) :
    (linkEach (b.add d).context b.context.indices).Meets (b.add d).assembly (b.wiringActs ++ k)
      fun r k' => r = .ok () ∧ k' = b.wiringActs ++ k ++ b.linkingActs ∧
        b.Linking d b.wiringActs (b.wiringActs ++ k) slot [] b.acts k' := by
  obtain ⟨-, hlinked, hacts⟩ := assemble_ends hrun
  have hstart : b.Linking d b.wiringActs (b.wiringActs ++ k) slot [] b.wiringActs
      (b.wiringActs ++ k) := {
    acts := ⟨[], (List.append_nil _).symm, (List.append_nil _).symm⟩
    reached := hk
    ready := fun i hi => by
      obtain ⟨inst, hinst, -⟩ := (wired_ends hrun).2 i hi
      exact ⟨inst, hinst⟩
    made := rfl
    chain := (List.append_nil _).symm }
  have hend := Meets.of_end (linkEach_linking hb (fun _ => List.mem_range.1) _ _ hstart) hlinked
  refine hend.mono fun r k' ⟨hr, hR⟩ => ⟨hr, ?_, hR⟩
  obtain ⟨l, hl, rfl⟩ := hR.acts
  rw [List.append_cancel_left (hacts.symm.trans hl)]

/-- Linking makes no instances and leaves no bean at work. -/
theorem linked_ends (hb : b.Avoids d) : (b.reached b.acts).made = (b.reached b.wiringActs).made ∧
    (b.reached b.acts).chain = [] := by
  obtain ⟨-, -, hlinking⟩ := linkEach_add hrun hb (k := [])
    (by rw [List.append_nil]; exact (wireEach_add hrun hb).2.reached)
  have hchain := hlinking.chain
  rw [(wired_ends hrun).1] at hchain
  exact ⟨hlinking.made, hchain⟩

/-! ## The definition behind -/

/-- The definition behind the others is entered. There and where the bean is made apart the same bean
is at work, and the others have their instances. -/
theorem facing_entered (hb : b.Avoids d) :
    Facing b.finished.assembly (b.add d).assembly b.finished.context.definitions.length
      [.push ⟨d.bean.profile.name, none⟩] (b.enteredActs d) := by
  have hbeside := (wireEach_add hrun hb).2
  obtain ⟨hchain, hinst⟩ := wired_ends hrun
  refine ⟨?_, fun i hi => ?_⟩
  · rw [enteredActs, Assembly.after_append, Assembly.after_append]
    show (((b.add d).reached b.wiringActs).chain ++ [_]).map _ = _
    rw [hbeside.reached.chain, hchain]
    rfl
  · obtain ⟨inst, hwired, hfinished⟩ := hinst i hi
    refine ⟨inst, hfinished, ?_⟩
    rw [enteredActs, Assembly.after_append, Assembly.after_cons, Assembly.after_nil,
      Assembly.instance?_act, Assembly.after_append]
    exact (hbeside.reached.instance? ((length_reached b _).symm ▸ hi)).trans hwired

/-- Where the definition is entered its slot is the last one, and it is at work. -/
theorem entered_ends (hb : b.Avoids d) :
    ((b.add d).assembly.after (b.enteredActs d)).slots =
      (b.reached b.wiringActs).slots ++ [{ d.slot with state := .wiring, toBuild := false }] ∧
    ((b.add d).assembly.after (b.enteredActs d)).chain =
      [⟨d.bean.profile.name, some b.definitions.length⟩] ∧
    ((b.add d).assembly.after (b.enteredActs d)).made = b.finished.made := by
  have hbeside := (wireEach_add hrun hb).2
  rw [enteredActs, Assembly.after_append, Assembly.after_append]
  refine ⟨?_, ?_, ?_⟩
  · show (((b.add d).reached b.wiringActs).modifySlot b.definitions.length _).slots = _
    rw [← length_reached b b.wiringActs, hbeside.reached.modifySlot]
  · show ((b.add d).reached b.wiringActs).chain ++ [_] = _
    rw [hbeside.reached.chain, (wired_ends hrun).1]
    rfl
  · exact hbeside.made.trans (linked_ends hrun hb).1.symm

/-- When the parts of the definition have run up to its init callback, it is ready behind the
others, and no bean is at work. -/
theorem completed_ends (hb : b.Avoids d) {h₁ k₁ h₂ k₂ : List Act} (inst : Instance)
    (hR : Parallel b.definitions.length [.push ⟨d.bean.profile.name, none⟩]
      (b.enteredActs d) h₁ k₁)
    (hR' : Parallel b.definitions.length h₁ (k₁ ++ [.leave b.definitions.length true]) h₂ k₂) :
    (b.reached b.wiringActs).Extends ((b.add d).reached
      (k₂ ++ [.complete b.definitions.length inst] ++ [.receive b.definitions.length]))
      ⟨.ready, false, some inst, d.slot.toLink⟩ := by
  obtain ⟨hslots, hchain, -⟩ := entered_ends hrun hb
  obtain ⟨-, hs, hc⟩ := hR.after b.finished.assembly (b.add d).assembly
  obtain ⟨-, hs', hc'⟩ := hR'.after b.finished.assembly (b.add d).assembly
  rw [reached_append, reached_append]
  constructor
  · show ((b.add d).assembly.after k₂).chain = _
    rw [hc', Assembly.after_append]
    show ((b.add d).assembly.after k₁).chain.dropLast = _
    rw [hc, hchain, (wired_ends hrun).1]
    rfl
  · show ((b.add d).assembly.after k₂).slots.modify _ _ = _
    rw [hs', Assembly.after_append]
    show (((b.add d).assembly.after k₁).slots.modify _ _).modify _ _ = _
    rw [hs, hslots, ← length_reached b b.wiringActs, Assembly.modify_length_append,
      Assembly.modify_length_append]

/-- Up to its init callback a bean is made apart as it is when the definition is wired. -/
theorem fetch_add (hb : b.Avoids d) (hd : d.LooksElsewhere) :
    (build b.finished.context (wireBean b.finished.context) none d >>=
        initialized none d.bean).Meets b.finished.assembly [.push ⟨d.bean.profile.name, none⟩]
      fun r h => (fetch (wireBean (b.add d).context) b.definitions.length).Meets (b.add d).assembly
        b.wiringActs fun r' k => r' = r ∧ Alongside b.definitions.length [] b.wiringActs h k ∧
          ∀ inst, r = .ok inst →
            ((b.finished.assembly.after h).slots = b.finished.slots ∧
              (b.finished.assembly.after h).chain = [⟨d.bean.profile.name, none⟩]) ∧
            (b.reached b.wiringActs).Extends ((b.add d).reached k)
              ⟨.ready, false, some inst, d.slot.toLink⟩ := by
  obtain ⟨-, -, hmade⟩ := entered_ends hrun hb
  have hslot := (wireEach_add hrun hb).2.reached.getElem?_length
  rw [length_reached] at hslot
  have hentered : Alongside b.definitions.length [] b.wiringActs [.push ⟨d.bean.profile.name, none⟩]
      (b.enteredActs d) :=
    (((Alongside.refl _ [] b.wiringActs).snoc_left rfl).snoc_right rfl).snoc_right rfl
  have hbuild := Parallel.build (facing_entered hrun hb) hmade (widens_finished b d) (hd.same b)
    b.definitions.length b.definitions.length b.definitions.length
  rw [wireBean_add]
  refine meets_bind.2 (hbuild.meets.mono fun r h₁ ⟨k₁, hbuilt, hR⟩ => ?_)
  cases r with
  | error e =>
    refine fetch_unwired (getElem?_add b d) hslot (hbuilt.mono fun r k₁ ⟨hr, hk⟩ => ?_)
    subst hr hk
    refine ⟨fun e' he => ?_, by simp⟩
    cases he
    exact ⟨rfl, ((hentered.trans hR.alongside).snoc_right rfl).snoc_right rfl, by simp⟩
  | ok built =>
    have hinit := Parallel.initialized b.finished.assembly (b.add d).assembly b.definitions.length
      h₁ (k₁ ++ [.leave b.definitions.length true]) d.bean built
    refine hinit.meets.mono fun r h₂ ⟨k₂, hdone, hR₂⟩ => ?_
    refine fetch_unwired (getElem?_add b d) hslot (hbuilt.mono fun r k₁ ⟨hr, hk⟩ => ?_)
    subst hr hk
    refine ⟨by simp, fun built hb => ?_⟩
    cases hb
    refine hdone.mono fun r k₂ ⟨hr, hk⟩ => ?_
    subst hr hk
    have hleft := ((hentered.trans hR.alongside).snoc_right rfl).trans hR₂.alongside
    refine ⟨fun e he => ?_, fun inst hi => ?_⟩
    · cases he
      exact ⟨rfl, (hleft.snoc_right rfl).snoc_right rfl, by simp⟩
    · cases hi
      refine ⟨rfl, (hleft.snoc_right rfl).snoc_right rfl, fun _ hi => ?_⟩
      cases hi
      obtain ⟨⟨hs, hc⟩, -⟩ := hR.after b.finished.assembly (b.add d).assembly
      obtain ⟨⟨hs', hc'⟩, -⟩ := hR₂.after b.finished.assembly (b.add d).assembly
      exact ⟨⟨hs'.trans hs, hc'.trans hc⟩, completed_ends hrun hb inst hR hR₂⟩

/-- The others are linked. There and where the bean is made apart it joins the chain for its link
callbacks, and the others have their instances. -/
theorem facing_linked (hb : b.Avoids d) {h start start' k : List Act}
    (hslots : (b.finished.assembly.after h).slots = b.finished.slots)
    (hchain : (b.finished.assembly.after h).chain = [⟨d.bean.profile.name, none⟩])
    (hR : b.Linking d start start' slot [] b.acts k) :
    Facing b.finished.assembly (b.add d).assembly b.finished.context.definitions.length h
      (k ++ [.takeLinks b.definitions.length] ++ [.push ⟨d.bean.profile.name, none⟩]) := by
  refine ⟨?_, fun i hi => ?_⟩
  · rw [Assembly.after_append, Assembly.after_append]
    show (((b.add d).reached k).chain ++ [_]).map _ = (b.finished.assembly.after h).chain.map _
    rw [hchain, hR.reached.chain, (linked_ends hrun hb).2]
    rfl
  · obtain ⟨inst, hinst⟩ := hR.ready i hi
    refine ⟨inst, (Assembly.instance?_congr hslots i).trans hinst, ?_⟩
    rw [Assembly.after_append, Assembly.after_cons, Assembly.after_nil, Assembly.instance?_act,
      Assembly.after_append, Assembly.after_cons, Assembly.after_nil, Assembly.instance?_act]
    exact (hR.reached.instance? ((length_reached b _).symm ▸ hi)).trans hinst

/-- The link callbacks of a bean run apart as they do when the definition behind the others is
linked. -/
theorem linkBean_add (hb : b.Avoids d) (hd : d.LooksElsewhere) {h start start' k : List Act}
    {inst : Instance} (hslots : (b.finished.assembly.after h).slots = b.finished.slots)
    (hchain : (b.finished.assembly.after h).chain = [⟨d.bean.profile.name, none⟩])
    (hR : b.Linking d start start' ⟨.ready, false, some inst, d.slot.toLink⟩ [] b.acts k) :
    (runLinks b.finished.context (wireBean b.finished.context) none inst.handle d.bean.links).Meets
      b.finished.assembly h fun r h' =>
        (linkBean (b.add d).context b.definitions.length).Meets (b.add d).assembly k fun r' k' =>
          r' = r ∧ Alongside b.definitions.length h k h' k' ∧
            ((b.add d).reached k').instance? b.definitions.length = some inst := by
  have hslot := hR.reached.getElem?_length
  rw [length_reached] at hslot
  have hinst : ((b.add d).assembly.after (k ++ [.takeLinks b.definitions.length])).instance?
      b.definitions.length = some inst := by
    rw [Assembly.after_append, Assembly.after_cons, Assembly.after_nil, Assembly.instance?_act]
    exact Option.bind_eq_some_iff.2 ⟨_, hslot, rfl⟩
  by_cases hlinks : d.bean.links = []
  · rw [hlinks]
    refine (meets_pure ()).2 (linkBean_ready (getElem?_add b d) hslot (fun _ => ?_)
      fun hne => absurd hlinks hne)
    exact ⟨rfl, (Alongside.refl ..).snoc_right rfl, hinst⟩
  · have hlinked := Parallel.runLinks (facing_linked hrun hb hslots hchain hR) (widens_finished b d)
      (fun c hc q hq => hd.same b q (.link hc hq)) inst.handle b.definitions.length
      b.finished.context.definitions.length (b.add d).context.definitions.length
    refine hlinked.meets.mono fun r h' ⟨k', hdone, hR'⟩ => ?_
    refine linkBean_ready (getElem?_add b d) hslot (fun hnil => absurd hnil hlinks) fun _ => ?_
    refine hdone.mono fun r k' ⟨hr, hk⟩ => ?_
    subst hr hk
    have hpushed : Alongside b.definitions.length h k h
        (k ++ [.takeLinks b.definitions.length] ++ [.push ⟨d.bean.profile.name, none⟩]) :=
      ((Alongside.refl ..).snoc_right rfl).snoc_right rfl
    refine ⟨rfl, (hpushed.trans hR'.alongside).snoc_right rfl, ?_⟩
    obtain ⟨-, hs, -⟩ := hR'.after b.finished.assembly (b.add d).assembly
    rw [reached_append]
    refine (Assembly.instance?_congr hs _).trans ?_
    rw [Assembly.after_append]
    exact hinst

/-- The others are wired and linked in the same way, before and after the definition behind them. -/
theorem assemble_add (hb : b.Avoids d) {post : Except ContainerError Unit → List Act → Prop}
    (hfetch : (fetch (wireBean (b.add d).context) b.definitions.length).Meets (b.add d).assembly
      b.wiringActs fun r k => (∀ e, r = .error e → post (.error e) k) ∧
        ∀ inst, r = .ok inst → ∃ m slot, k = b.wiringActs ++ m ∧
          (b.reached b.wiringActs).Extends ((b.add d).reached k) slot ∧
          (linkBean (b.add d).context b.definitions.length).Meets (b.add d).assembly
            (k ++ b.linkingActs) post) :
    (assemble (b.add d).context).Meets (b.add d).assembly [] post := by
  have hindices : (b.add d).context.indices = b.context.indices ++ [b.definitions.length] :=
    (b.widens_add d).indices
  rw [assemble, hindices, wireEach_append, linkEach_append, bind_assoc]
  refine meets_bind.2 ((wireEach_add hrun hb).1.mono fun r k ⟨hr, hk⟩ => ?_)
  subst hr hk
  refine meets_bind.2 (meets_bind.2 (hfetch.mono fun r k ⟨herror, hok⟩ => ?_))
  cases r with
  | error e => exact herror e rfl
  | ok inst =>
    obtain ⟨m, slot, rfl, hk, hlink⟩ := hok inst rfl
    refine (meets_pure ()).2 (meets_bind.2 ((linkEach_add hrun hb hk).mono fun r k ⟨hr, hk', _⟩ => ?_))
    subst hr hk'
    refine meets_bind.2 (hlink.mono fun r k hend => ?_)
    cases r with
    | error e => exact hend
    | ok u => exact (meets_pure ()).2 hend

theorem wireApart_add (hb : b.Avoids d) (hd : d.LooksElsewhere) :
    (wireApart b.finished.context (wireBean b.finished.context) d).Meets b.finished.assembly []
      fun r h => (assemble (b.add d).context).Meets (b.add d).assembly [] fun r' k =>
        b.Registered d r h r' k := by
  refine wireApart_meets ((fetch_add hrun hb hd).mono fun r h hfetch => ?_)
  obtain ⟨k, hfetched, hR, hok⟩ := hfetch.exists_end
  refine ⟨fun e he => ?_, fun inst hi => ?_⟩
  · subst he
    refine assemble_add hrun hb (hfetched.mono fun r k ⟨hr, hk⟩ => ?_)
    subst hr hk
    refine ⟨fun e he => ?_, by simp⟩
    cases he
    exact .failed hR e
  · subst hi
    obtain ⟨⟨hslots, hchain⟩, hext⟩ := hok inst rfl
    obtain ⟨m, rfl⟩ := hR.exists_append
    obtain ⟨-, hlinked, hlinking⟩ := linkEach_add hrun hb hext
    rw [hlinked] at hlinking
    refine (linkBean_add hrun hb hd hslots hchain hlinking).mono fun r h' hlink => ?_
    refine assemble_add hrun hb (hfetched.mono fun r' k ⟨hr, hk⟩ => ?_)
    subst hr hk
    refine ⟨by simp, fun inst' hi => ⟨m, _, rfl, hext, hlink.mono fun r' k ⟨hr, hR', hinst⟩ => ?_⟩⟩
    subst hr
    exact .linked hR hR' hinst r'

end

/-- The progress of the definition behind the others is that of the bean made apart. -/
theorem Registered.progress_add {r : Except ContainerError Instance} {h : List Act}
    {r' : Except ContainerError Unit} (hrun : ((assemble b.context).run b.assembly).1 = .ok ())
    (hR : b.Registered d r h r' k) :
    progress b.definitions.length k = h.filterMap Act.apartMark? := by
  obtain ⟨⟨building, linking, hk, hmarks, hwork⟩, -, -⟩ := hR
  have hnone : progress b.definitions.length (b.wiringActs ++ b.linkingActs) = [] := by
    rw [← (assemble_ends hrun).2.2]
    exact b.sound_acts.lawful.progress_eq_nil (List.getElem?_eq_none (Nat.le_refl _))
  rw [progress_append, List.append_eq_nil_iff] at hnone
  have hown : progress b.definitions.length k =
      progress b.definitions.length (building ++ linking) := by
    rcases hk with rfl | ⟨rfl, rfl, -⟩ <;> simp [progress_append, hnone]
  rw [hown, progress, ← filterMap_isWork fun a => a.markOf?_of_isWork _, hwork, List.filterMap_map]
  have happart : ∀ a : Act, a.isWork = false → a.apartMark? = none := fun a ha => by
    cases a with
    | mark owner m => cases ha
    | _ => rfl
  rw [← filterMap_isWork happart]
  refine List.filterMap_congr fun a ha => Act.markOf?_ownedBy ?_
  exact List.filterMap_eq_nil_iff.1 hmarks a (List.mem_of_mem_filter ha)

/-- Refreshing with the definition behind the others comes to what assembling comes to. -/
theorem refresh_add {r : Except ContainerError Instance}
    (hr : ((assemble (b.add d).context).run (b.add d).assembly).1 = r.map fun _ => ())
    (hinst : ∀ inst, r = .ok inst →
      ((b.add d).reached (b.add d).acts).instance? b.definitions.length = some inst) :
    (b.add d).refresh.1.map (fun c => c.assembly.instance? b.definitions.length) = r.map some := by
  rcases (b.add d).refresh_cases with ⟨e, hrun, hrefresh⟩ | ⟨c, hrun, hrefresh, hslots, -⟩
  · rw [hrefresh]
    cases r with
    | error e' =>
      cases hrun.symm.trans hr
      rfl
    | ok inst => cases hrun.symm.trans hr
  · rw [hrefresh]
    cases r with
    | error e => cases hrun.symm.trans hr
    | ok inst =>
      exact congrArg Except.ok ((Assembly.instance?_congr hslots _).trans (hinst inst rfl))

/-- A bean is made apart as it is when it is registered. The refreshing of a builder has succeeded, and
none of its beans looks up a further bean, which looks up neither itself nor the container. Then
refreshing with that bean registered at last does for the other beans what it does without it, in the
same order. For the bean it does what making it apart in the container does: the same parts begin and
end, the same happens in them with the same dependencies and outcomes, and the same instance or error
comes of it; only the link callbacks run after those of the others. An object is made before it is
registered (`register_eq_add`), so as a definition it has its instance in both places. -/
theorem wireApart_registered {c c' : Container} {events happened : List Event}
    {result : Except ContainerError Instance} (hok : b.refresh = (.ok c, events))
    (hb : b.Avoids d) (hd : d.LooksElsewhere)
    (hwire : c.run (wireApart c.context (wireBean c.context) d) = (result, happened, c')) :
    (d.object = none → c.step (.wire d.bean) = (result.map .made, happened, c') ∧
      (d.bean.maker ≠ .object → b.register d.bean = b.add d)) ∧
    b.acts = b.wiringActs ++ b.linkingActs ∧
    (∃ building linking,
      ((b.add d).acts = b.wiringActs ++ building ++ b.linkingActs ++ linking ∨
        (b.add d).acts = b.wiringActs ++ building ∧ linking = [] ∧ ∃ e, result = .error e) ∧
      (building ++ linking).filter Act.isWork =
        (((wireApart c.context (wireBean c.context) d).acts c.assembly).filter Act.isWork).map
          (Act.ownedBy b.definitions.length) ∧
      (building ++ linking).filterMap Act.noted? = happened) ∧
    progress b.definitions.length (b.add d).acts =
      ((wireApart c.context (wireBean c.context) d).acts c.assembly).filterMap Act.apartMark? ∧
    (b.add d).refresh.1.map (fun c => c.assembly.instance? b.definitions.length) =
      result.map some := by
  obtain ⟨hrun, rfl, -⟩ := refresh_ok hok
  obtain ⟨-, -, hacts⟩ := assemble_ends hrun
  obtain ⟨rfl, hevents, -⟩ : _ = result ∧ _ = happened ∧ _ = c' :=
    ⟨congrArg Prod.fst hwire, congrArg (·.2.1) hwire, congrArg (·.2.2) hwire⟩
  rw [Container.events_run] at hevents
  have hR : b.Registered d ((wireApart b.finished.context (wireBean b.finished.context) d).run
      b.finished.assembly).1 _ ((assemble (b.add d).context).run (b.add d).assembly).1
      (b.add d).acts := wireApart_add hrun hb hd
  have hprogress := hR.progress_add hrun
  obtain ⟨⟨building, linking, hk, -, hwork⟩, hr, hinst⟩ := hR
  refine ⟨fun hobject => ?_, hacts, ⟨building, linking, hk, hwork, ?_⟩, hprogress, ?_⟩
  · obtain ⟨bean, object⟩ := d
    cases hobject
    have hstep := Container.run_map b.finished Reply.made
      (wireApart b.finished.context (wireBean b.finished.context) ⟨bean, none⟩)
    rw [hwire] at hstep
    refine ⟨hstep, fun hmaker => ?_⟩
    obtain ⟨b', object, hregister, -, -, hnone⟩ := b.register_eq_add bean
    obtain ⟨rfl, rfl⟩ := hnone hmaker
    exact hregister
  · rw [← hevents, ← filterMap_isWork fun a => a.noted?_of_isWork, hwork, List.filterMap_map,
      ← filterMap_isWork fun a => a.noted?_of_isWork]
    exact List.filterMap_congr fun a _ => a.noted?_ownedBy _
  · exact refresh_add hr hinst

/-- A bean with an injector that looks up the pool and a link callback that looks up the cache. -/
def auditor : Definition where
  bean :=
    { Bean.lone "auditor" none [.act ⟨.get (.concrete "pool") .inferred, false⟩] with
      links := [⟨.get (.concrete "cache") .inferred, false⟩] }
  object := none

theorem asks_auditor {q : Lookup} (hq : auditor.bean.Asks q) :
    q = .one (.concrete "pool") .inferred ∨ q = .one (.concrete "cache") .inferred := by
  cases hq with
  | maker hmaker h =>
    cases hmaker
    cases h
  | injector hj h =>
    cases List.mem_singleton.1 hj
    exact .inl h
  | link hc h =>
    cases List.mem_singleton.1 hc
    exact .inr h

/-- The second bean looks nothing up, and the first one does not look up the further bean. -/
theorem avoids_linking : linking.Avoids auditor := by
  intro d hd q hq
  rcases List.mem_pair.1 hd with rfl | rfl
  · cases hq with
    | maker hmaker h =>
      cases hmaker
      cases h
    | injector hj h => cases hj
    | link hc h =>
      cases List.mem_singleton.1 hc
      cases h
      decide
  · cases hq with
    | maker hmaker h =>
      cases hmaker
      cases h
    | injector hj h => cases hj
    | link hc h => cases hc

theorem wireApart_registered_linking : ∃ c c' events happened,
    linking.refresh = (.ok c, events) ∧
    c.step (.wire auditor.bean) = (.ok (.made (auditor.bean.instantiate 2 [])), happened, c') ∧
    (linking.register auditor.bean).refresh.1.map (fun c => c.assembly.instance? 2) =
      .ok (some (auditor.bean.instantiate 2 [])) := by
  have hok : linking.refresh = (.ok linking.finished, _) := rfl
  have hd : auditor.LooksElsewhere := fun q hq => by
    rcases asks_auditor hq with rfl | rfl <;> exact ⟨by simp, by decide⟩
  obtain ⟨hplain, -, -, -, hrefresh⟩ := wireApart_registered hok avoids_linking hd rfl
  obtain ⟨hstep, hregister⟩ := hplain rfl
  rw [hregister (by simp [auditor, Bean.lone])]
  exact ⟨_, _, _, _, hok, hstep, hrefresh⟩

end Builder

end ConfigGraph
