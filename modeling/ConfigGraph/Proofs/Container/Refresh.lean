import ConfigGraph.Proofs.Container.Parts

/-!
# Wiring and linking all definitions

Wiring a definition takes it from unwired to ready or failed and leaves every definition alone that
had begun before (`Wires.wireNow`), so the recursion of `wire` works aside at every depth
(`wires_wire`). It follows that refreshing a builder does nothing but what is lawful and answers
every lookup of a failed definition (`Builder.sound_acts`), that it succeeds only when all
definitions are ready and all their parts have run (`Builder.refresh_cases`), and that otherwise it
stops at the first definition that is refused or at the first link callback that fails
(`Builder.Stops`).
-/

namespace ConfigGraph

namespace Builder

/-- From `h` to `h'` only the definition with number `i` and such as were unwired have come
further. -/
structure Spares (b : Builder) (i : Nat) (h h' : List Act) : Prop where
  sound : b.Sound h'
  state : ∀ j, j ≠ i → b.state? h j ≠ some .unwired → b.state? h' j = b.state? h j
  toLink : ∀ j, b.toLink? h' j = b.toLink? h j
  parts : ∀ j, j ≠ i → b.state? h j ≠ some .unwired → progress j h' = progress j h

variable {b : Builder} {owner : Option Nat} {h h' h'' : List Act} {a : Act} {i : Nat}

theorem Spares.trans (h₁ : b.Spares i h h') (h₂ : b.Spares i h' h'') : b.Spares i h h'' where
  sound := h₂.sound
  state j hij hj := by
    have hst := h₁.state j hij hj
    exact (h₂.state j hij (hst ▸ hj)).trans hst
  toLink j := (h₂.toLink j).trans (h₁.toLink j)
  parts j hij hj := (h₂.parts j hij (h₁.state j hij hj ▸ hj)).trans (h₁.parts j hij hj)

theorem Spares.once (hs : b.Sound (h ++ [a])) (hmove : ∀ j st, a.moves? = some (j, st) → j = i)
    (htake : ∀ j, a ≠ .takeLinks j) (hmark : ∀ j, j ≠ i → a.markOf? j = none) :
    b.Spares i h (h ++ [a]) where
  sound := hs
  state j hij _ := by
    rw [state?_append_singleton]
    split
    · rename_i k st hk
      exact if_neg fun hkj => hij (hkj.symm.trans (hmove k st hk))
    · rfl
  toLink _ := toLink?_snoc_of_ne htake
  parts j hij _ := progress_snoc_of_none (hmark j hij)

theorem Advances.spares (ha : b.Advances (some i) h h') : b.Spares i h h' where
  sound := ha.sound
  state j _ := ha.state j
  toLink := ha.toLink
  parts j hij := ha.parts j fun hi => hij (Option.some.inj hi).symm

theorem Spares.advances (hs : b.Spares i h h') (hi : b.state? h i = some .unwired)
    (hchain : (b.reached h').chain = (b.reached h).chain) : b.Advances none h h' where
  sound := hs.sound
  chain := hchain
  state j hj := hs.state j (fun hij => hj (hij ▸ hi)) hj
  toLink := hs.toLink
  parts j _ hj := hs.parts j (fun hij => hj (hij ▸ hi)) hj

theorem state?_move {st : State} (ha : a.moves? = some (i, st)) (hi : i < b.definitions.length) :
    b.state? (h ++ [a]) i = some st := by
  rw [state?_append_singleton, ha]
  show (if i = i then _ else _) = _
  rw [if_pos rfl]
  obtain ⟨old, hold⟩ := Option.isSome_iff_exists.1 (state?_isSome (h := h).2 hi)
  rw [hold]
  rfl

theorem instance?_complete {inst : Instance} (hi : i < b.definitions.length) :
    (b.reached (h ++ [.complete i inst])).instance? i = some inst := by
  rw [reached_append]
  exact Assembly.instance?_complete ((b.length_reached h).symm ▸ hi)

end Builder

open Builder

section

variable {b : Builder} {inner : Nat → Wiring Instance} {h : List Act} {i : Nat} {d : Definition}

/-- The end of a wiring: the definition becomes ready, or it fails. -/
theorem Builder.HasRun.finish (hr : b.HasRun h i d d.bean.buildParts)
    (hi : b.state? h i = some .wired) (inst : Instance) :
    (finish i d.bean inst).Meets b.assembly h fun r h' =>
      b.Spares i h h' ∧ (b.reached h').chain = (b.reached h).chain ∧
        ∀ inst, r = .ok inst → (b.reached h').instance? i = some inst := by
  have hlen : i < b.definitions.length := (List.getElem?_eq_some_iff.1 hr.definition).1
  simp only [ConfigGraph.finish, Wiring.meets_bind, Wiring.meets_attempt]
  refine (hr.initialized inst).mono fun r h' hend => ?_
  obtain ⟨ha, hok⟩ := hend
  have hwired : b.state? h' i = some .wired := (ha.state i hr.begun).trans hi
  cases r with
  | error e =>
    simp only [Wiring.meets_bind, Wiring.meets_once, Wiring.meets_fail]
    have hs : b.Sound (h' ++ [.abandon i]) := ha.sound.snoc hwired (by simp)
    refine ⟨ha.spares.trans (.once hs ?_ (by simp) fun _ _ => rfl), ?_, by simp⟩
    · simp [Act.moves?]
    · rw [reached_append, ← ha.chain]
      rfl
  | ok inst =>
    simp only [Wiring.meets_bind, Wiring.meets_once, Wiring.meets_pure]
    have hs : b.Sound (h' ++ [.complete i inst]) :=
      ha.sound.snoc ⟨d, hr.definition, hwired, (hok inst rfl).ran⟩ (by simp)
    refine ⟨ha.spares.trans (.once hs ?_ (by simp) fun _ _ => rfl), ?_, ?_⟩
    · simp [Act.moves?]
    · rw [reached_append, ← ha.chain]
      rfl
    · rintro _ ⟨⟩
      exact instance?_complete hlen

/-- An unwired definition is wired. -/
theorem Wires.wireNow (hw : Wires b inner) (hs : b.Sound h) (hd : b.definitions[i]? = some d)
    (hi : b.state? h i = some .unwired) :
    (wireNow b.context inner i d).Meets b.assembly h fun r h' => b.Advances none h h' ∧
      ∀ inst, r = .ok inst → (b.reached h').instance? i = some inst := by
  have hlen : i < b.definitions.length := (List.getElem?_eq_some_iff.1 hd).1
  simp only [ConfigGraph.wireNow, Wiring.meets_bind, Wiring.meets_once, Wiring.meets_attempt]
  have hs₁ : b.Sound (h ++ [.enter i d.bean.profile.name]) := hs.snoc ⟨d, hd, rfl, hi⟩ (by simp)
  have henter : b.Spares i h (h ++ [.enter i d.bean.profile.name]) :=
    .once hs₁ (by simp [Act.moves?]) (by simp) fun _ _ => rfl
  have hr : b.HasRun (h ++ [.enter i d.bean.profile.name]) i d [] := by
    refine ⟨hs₁, hd, ?_, ?_⟩
    · rw [state?_move rfl hlen]
      simp
    · exact (progress_snoc_of_none rfl).trans (hs.lawful.progress_unwired hi)
  refine (hw.build b.context hr).mono fun r h₂ hend => ?_
  obtain ⟨ha, hok⟩ := hend
  have hchain : (b.reached h₂).chain = (b.reached h).chain ++ [⟨d.bean.profile.name, some i⟩] := by
    rw [ha.chain, reached_append]
    rfl
  have hleft (success : Bool) :
      (b.reached (h₂ ++ [.leave i success])).chain = (b.reached h).chain := by
    rw [reached_append]
    show (b.reached h₂).chain.dropLast = _
    rw [hchain, List.dropLast_concat]
  cases r with
  | error e =>
    simp only [Wiring.meets_bind, Wiring.meets_once, Wiring.meets_fail]
    have hs₃ : b.Sound (h₂ ++ [.leave i false]) :=
      ha.sound.snoc ⟨⟨_, _, hchain⟩, by simp⟩ (by simp)
    have hleave : b.Spares i h₂ (h₂ ++ [.leave i false]) :=
      .once hs₃ (by simp [Act.moves?]) (by simp) fun _ _ => rfl
    exact ⟨((henter.trans ha.spares).trans hleave).advances hi (hleft false), by simp⟩
  | ok inst =>
    simp only [Wiring.meets_bind, Wiring.meets_once]
    have hr₂ := hok inst rfl
    have hs₃ : b.Sound (h₂ ++ [.leave i true]) :=
      ha.sound.snoc ⟨⟨_, _, hchain⟩, fun _ => ⟨d, hd, hr₂.ran⟩⟩ (by simp)
    have hleave : b.Spares i h₂ (h₂ ++ [.leave i true]) :=
      .once hs₃ (by simp [Act.moves?]) (by simp) fun _ _ => rfl
    have hwired : b.state? (h₂ ++ [.leave i true]) i = some .wired := state?_move rfl hlen
    have hr₃ : b.HasRun (h₂ ++ [.leave i true]) i d d.bean.buildParts :=
      ⟨hs₃, hd, by rw [hwired]; simp, (progress_snoc_of_none rfl).trans hr₂.ran⟩
    refine (hr₃.finish hwired inst).mono fun r h₄ hend => ?_
    obtain ⟨hspares, hsame, hinst⟩ := hend
    refine ⟨?_, hinst⟩
    exact (((henter.trans ha.spares).trans hleave).trans hspares).advances hi
      (hsame.trans (hleft true))

/-- A definition that has not been wired is wired by `now`, and nothing is done to any other. -/
theorem wireBy_meets {now : Definition → Wiring Instance} (hs : b.Sound h)
    (hnow : ∀ d, b.definitions[i]? = some d → b.state? h i = some .unwired →
      (now d).Meets b.assembly h fun r h' => b.Advances none h h' ∧
        ∀ inst, r = .ok inst → (b.reached h').instance? i = some inst) :
    (wireBy b.context now i).Meets b.assembly h fun r h' => b.Advances none h h' ∧
      ∀ inst, r = .ok inst → (b.reached h').instance? i = some inst := by
  rw [wireBy, Wiring.meets_bind, Wiring.meets_current]
  dsimp only
  split
  · rename_i d slot hd hslot
    have hslot : (b.reached h).slots[i]? = some slot := hslot
    split
    · rename_i inst hinst
      refine (Wiring.meets_pure _).2 ⟨.refl hs, ?_⟩
      rintro _ ⟨⟩
      exact Option.bind_eq_some_iff.2 ⟨slot, hslot, hinst⟩
    · split
      · rename_i hstate _
        refine hnow d hd ?_
        rw [state?, Assembly.state?, hslot, Option.map_some, hstate]
      · exact (Wiring.meets_fail _).2 ⟨.refl hs, by simp⟩
      · simp only [circular, Wiring.meets_bind, Wiring.meets_current, Wiring.meets_fail]
        exact ⟨.refl hs, by simp⟩
  · exact (Wiring.meets_fail _).2 ⟨.refl hs, by simp⟩

/-- A failed definition is refused at once. -/
theorem wireBy_failed {now : Definition → Wiring Instance} (hl : b.Lawful h)
    (hd : b.definitions[i]? = some d) (hi : b.state? h i = some .failed) :
    (wireBy b.context now i).Meets b.assembly h fun r h' =>
      r = .error (.wiringFailed d.bean.profile.name) ∧ h' = h := by
  obtain ⟨slot, hslot, hstate⟩ := Option.map_eq_some_iff.1 hi
  have hinst : slot.inst = none := by
    have := (hl.consistent.coherent slot (List.mem_of_getElem? hslot)).2
    simpa [hstate] using this
  have hd : b.context.definitions[i]? = some d := hd
  have hslot : (b.assembly.after h).slots[i]? = some slot := hslot
  simp [wireBy, hd, hslot, hinst, hstate]

/-- Wiring works aside, at every depth. -/
theorem wires_wire (b : Builder) (depth : Nat) : Wires b (wire b.context depth) := by
  induction depth with
  | zero =>
    refine ⟨fun i h hs => wireBy_meets hs fun d _ _ => ?_,
      fun i d h hl hd hi => wireBy_failed hl hd hi⟩
    simp only [circular, Wiring.meets_bind, Wiring.meets_current, Wiring.meets_fail]
    exact ⟨.refl hs, by simp⟩
  | succ depth ih =>
    exact ⟨fun i h hs => wireBy_meets hs fun d hd hi => ih.wireNow hs hd hi,
      fun i d h hl hd hi => wireBy_failed hl hd hi⟩

/-- Wiring all definitions: if that succeeds, each of them is ready. It stops at the first that is
refused. -/
theorem wireEach_meets (is : List Nat) (hs : b.Sound h) :
    (wireEach b.context is).Meets b.assembly h fun r h' => b.Advances none h h' ∧
      (r = .ok () → ∀ i ∈ is, b.state? h' i = some .ready) ∧
      ∀ e, r = .error e → ∃ front i rest h'', is = front ++ i :: rest ∧
        (∀ j ∈ front, b.state? h' j = some .ready) ∧ h' = h'' ++ [.refuse i e] := by
  induction is generalizing h with
  | nil => exact (Wiring.meets_pure _).2 ⟨.refl hs, by simp⟩
  | cons i rest ih =>
    refine Wiring.meets_bind.2 ((((wires_wire b _).fetch_meets i hs).and (fetch_error _ i h)).mono
      fun r h' ⟨⟨ha, hinst⟩, herror⟩ => ?_)
    cases r with
    | error e =>
      refine ⟨ha, by simp, ?_⟩
      rintro _ ⟨⟩
      obtain ⟨h'', hh⟩ := herror e rfl
      exact ⟨[], i, rest, h'', rfl, by simp, hh⟩
    | ok inst =>
      have hready : b.state? h' i = some .ready :=
        ha.sound.lawful.state?_of_instance? (hinst inst rfl)
      refine (ih ha.sound).mono fun r h'' ⟨ha', hrest, herror⟩ => ?_
      have hready' : b.state? h'' i = some .ready := by
        rw [ha'.state i (by rw [hready]; simp), hready]
      refine ⟨ha.trans ha', fun hok => List.forall_mem_cons.2 ⟨hready', hrest hok⟩, fun e he => ?_⟩
      obtain ⟨front, j, rest, h₃, rfl, hfront, hh⟩ := herror e he
      exact ⟨i :: front, j, rest, h₃, rfl, List.forall_mem_cons.2 ⟨hready', hfront⟩, hh⟩

/-! ## Linking -/

/-- From `h` to `h'`, while all definitions are ready, only those in `is` have come further. -/
structure Builder.Links (b : Builder) (is : List Nat) (h h' : List Act) : Prop where
  sound : b.Sound h'
  ready : b.AllReady h'
  toLink : ∀ j, j ∉ is → b.toLink? h' j = b.toLink? h j
  parts : ∀ j, j ∉ is → progress j h' = progress j h

variable {h' h'' : List Act} {is : List Nat}

theorem Builder.Links.trans (h₁ : b.Links is h h') (h₂ : b.Links is h' h'') : b.Links is h h'' where
  sound := h₂.sound
  ready := h₂.ready
  toLink j hj := (h₂.toLink j hj).trans (h₁.toLink j hj)
  parts j hj := (h₂.parts j hj).trans (h₁.parts j hj)

theorem Builder.Links.mono {is' : List Nat} (hl : b.Links is h h') (his : is ⊆ is') :
    b.Links is' h h' where
  sound := hl.sound
  ready := hl.ready
  toLink j hj := hl.toLink j fun hi => hj (his hi)
  parts j hj := hl.parts j fun hi => hj (his hi)

theorem Builder.AllReady.ne_unwired (hready : b.AllReady h) (j : Nat) :
    b.state? h j ≠ some .unwired := by
  intro hj
  rw [hready j (state?_isSome.1 (Option.isSome_of_eq_some hj))] at hj
  cases hj

theorem Builder.Advances.links (ha : b.Advances (some i) h h') (hready : b.AllReady h) :
    b.Links [i] h h' where
  sound := ha.sound
  ready j hj := (ha.state j (hready.ne_unwired j)).trans (hready j hj)
  toLink j _ := ha.toLink j
  parts j hj := ha.parts j (by simpa [eq_comm] using hj) (hready.ne_unwired j)

/-- An act that leaves states and parts as they are. -/
theorem Builder.Links.once {a : Act} (hs : b.Sound (h ++ [a])) (hready : b.AllReady h)
    (hmove : a.moves? = none) (htake : ∀ j, j ∉ is → a ≠ .takeLinks j)
    (hmark : ∀ j, a.markOf? j = none) : b.Links is h (h ++ [a]) where
  sound := hs
  ready j hj := (state?_snoc_of_none hmove).trans (hready j hj)
  toLink j hj := by
    rw [toLink?_append_singleton]
    split
    · exact if_neg fun hij => htake j hj (by rw [hij])
    · rfl
  parts j _ := progress_snoc_of_none (hmark j)

/-- A link callback of a definition has failed, after those before it have run. Its error was noted,
and the definition has left the chain. -/
def Builder.LinkFails (b : Builder) (i : Nat) (e : ContainerError) (h : List Act) : Prop :=
  ∃ d k c handle h', b.definitions[i]? = some d ∧ d.bean.links[k]? = some c ∧ c.swallow = false ∧
    h = h' ++ [.note (.acted .link handle c.action.name (.error e)), .pop] ∧
    progress i h = course (d.bean.buildParts ++ d.bean.initParts ++ (List.range k).map .link) ++
      [.begins (.link k)]

/-- The link callbacks of a definition run, while it is at the end of the chain. -/
theorem Builder.HasRun.linked (hr : b.HasRun h i d (d.bean.buildParts ++ d.bean.initParts))
    (hmay : b.MayLink h i) (name : String) (handle : Handle) :
    (Wiring.within ⟨name, none⟩
      (runLinks b.context (wireBean b.context) (some i) handle d.bean.links)).Meets b.assembly h
        fun r h' => b.Links [i] h h' ∧ (r = .ok () → progress i h' = course d.bean.parts) ∧
          ∀ e, r = .error e → b.LinkFails i e h' := by
  have hparts : d.bean.parts = (d.bean.buildParts ++ d.bean.initParts) ++
      (List.range' 0 d.bean.links.length).map .link ++ [] := by
    rw [← List.range_eq_range', List.append_nil]
    rfl
  have hs₁ : b.Sound (h ++ [.push ⟨name, none⟩]) := hr.sound.snoc rfl (by simp)
  have hpush : b.Links [i] h (h ++ [.push ⟨name, none⟩]) :=
    .once hs₁ hmay.2 rfl (by simp) fun _ => rfl
  have hr₁ : b.HasRun (h ++ [.push ⟨name, none⟩]) i d
      (d.bean.buildParts ++ d.bean.initParts) :=
    ⟨hs₁, hr.definition, hpush.ready.ne_unwired i, (progress_snoc_of_none rfl).trans hr.ran⟩
  have hmay₁ : b.MayLink (h ++ [.push ⟨name, none⟩]) i :=
    ⟨(toLink?_snoc_of_ne (by simp)).trans hmay.1, hpush.ready⟩
  rw [Wiring.meets_within]
  have haside (c : Callback) :=
    (wires_wire b b.context.definitions.length).runCallback b.context .link handle c
  refine (hr₁.inTurn (fun _ => haside) (fun _ => runCallback_error _ _ .link handle) 0 ()
    d.bean.links hparts fun k _ => hmay₁).mono fun r h' hend => ?_
  obtain ⟨ha, hok, herror⟩ := hend
  have hpop : b.Sound (h' ++ [.pop]) := by
    refine ha.sound.snoc ⟨(b.reached h).chain, ⟨name, none⟩, ?_, rfl⟩ (by simp)
    rw [ha.chain, reached_append]
    rfl
  have hlinked := ha.links hpush.ready
  refine ⟨(hpush.trans hlinked).trans (.once hpop hlinked.ready rfl (by simp) fun _ => rfl),
    fun hr => ?_, fun e he => ?_⟩
  · rw [progress_snoc_of_none rfl, (hok () hr).ran, hparts, List.append_nil]
  · obtain ⟨k, c, hc, hran, hswallow, h'', rfl⟩ := herror e he
    refine ⟨d, k, c, handle, h'', hr.definition, hc, hswallow, List.append_assoc .., ?_⟩
    rw [progress_snoc_of_none rfl, hran, List.range_eq_range', Nat.zero_add]

/-- Linking a definition that is ready: if that succeeds, all its parts have run. -/
theorem linkBean_meets (hs : b.Sound h) (hready : b.AllReady h)
    (hd : b.definitions[i]? = some d) (hlink : b.toLink? h i = some (!d.bean.links.isEmpty)) :
    (linkBean b.context i).Meets b.assembly h fun r h' => b.Links [i] h h' ∧
      (r = .ok () → progress i h' = course d.bean.parts) ∧
      ∀ e, r = .error e → b.LinkFails i e h' := by
  obtain ⟨slot, hslot, htoLink⟩ := Option.map_eq_some_iff.1 hlink
  have hi : b.state? h i = some .ready := hready i (List.getElem?_eq_some_iff.1 hd).1
  have hstate : slot.state = .ready := Assembly.state_of_state? hslot hi
  have hinst := (hs.lawful.consistent.coherent slot (List.mem_of_getElem? hslot)).2.2 hstate
  obtain ⟨inst, hinst⟩ := Option.isSome_iff_exists.1 hinst
  have htake : b.Links [i] h (h ++ [.takeLinks i]) :=
    .once (hs.snoc trivial (by simp)) hready rfl (by simp [eq_comm]) fun _ => rfl
  have hran : progress i (h ++ [.takeLinks i]) =
      course (d.bean.buildParts ++ d.bean.initParts) :=
    (progress_snoc_of_none rfl).trans (hs.lawful.progress_unlinked hd hi hlink)
  have hd' : b.context.definitions[i]? = some d := hd
  have hslot : (b.assembly.after h).slots[i]? = some slot := hslot
  simp only [linkBean, Wiring.meets_bind, Wiring.meets_current, Wiring.meets_once, hd', hslot,
    hinst, htoLink]
  cases hlinks : d.bean.links.isEmpty with
  | true =>
    refine (Wiring.meets_pure _).2 ⟨htake, fun _ => ?_, by simp⟩
    rw [hran, Bean.parts, Bean.linkParts, List.isEmpty_iff.1 hlinks]
    simp
  | false =>
    have hmay : b.MayLink (h ++ [.takeLinks i]) i := by
      refine ⟨?_, htake.ready⟩
      rw [toLink?_append_singleton, hlink]
      exact if_pos rfl
    have hr : b.HasRun (h ++ [.takeLinks i]) i d (d.bean.buildParts ++ d.bean.initParts) :=
      ⟨htake.sound, hd, htake.ready.ne_unwired i, hran⟩
    exact (hr.linked hmay _ _).mono fun r h' hend => ⟨htake.trans hend.1, hend.2⟩

/-- Linking definitions that are ready: if that succeeds, all their parts have run. It stops at the
first link callback that fails. -/
theorem linkEach_meets (is : List Nat) (hnodup : is.Nodup) (hs : b.Sound h) (hready : b.AllReady h)
    (hlink : ∀ i ∈ is, ∃ d, b.definitions[i]? = some d ∧
      b.toLink? h i = some (!d.bean.links.isEmpty)) :
    (linkEach b.context is).Meets b.assembly h fun r h' => b.Links is h h' ∧
      (r = .ok () → ∀ i ∈ is, ∀ d, b.definitions[i]? = some d →
        progress i h' = course d.bean.parts) ∧
      ∀ e, r = .error e → ∃ front i rest, is = front ++ i :: rest ∧
        (∀ j ∈ front, ∀ d, b.definitions[j]? = some d → progress j h' = course d.bean.parts) ∧
        b.LinkFails i e h' := by
  induction is generalizing h with
  | nil => exact (Wiring.meets_pure _).2 ⟨⟨hs, hready, fun _ _ => rfl, fun _ _ => rfl⟩, by simp⟩
  | cons i rest ih =>
    obtain ⟨hi, hnodup⟩ := List.nodup_cons.1 hnodup
    obtain ⟨d, hd, hlink₁⟩ := hlink i (List.mem_cons_self ..)
    refine Wiring.meets_bind.2 ((linkBean_meets hs hready hd hlink₁).mono
      fun r h' ⟨ha, hok, herror⟩ => ?_)
    cases r with
    | error e =>
      refine ⟨ha.mono (by simp), by simp, ?_⟩
      rintro _ ⟨⟩
      exact ⟨[], i, rest, rfl, by simp, herror e rfl⟩
    | ok u =>
      have hrest : ∀ j ∈ rest, ∃ d, b.definitions[j]? = some d ∧
          b.toLink? h' j = some (!d.bean.links.isEmpty) := fun j hj => by
        have hij : j ∉ [i] := fun hji => hi (List.mem_singleton.1 hji ▸ hj)
        rw [ha.toLink j hij]
        exact hlink j (List.mem_cons_of_mem _ hj)
      refine (ih hnodup ha.sound ha.ready hrest).mono fun r h'' ⟨ha', hrest, herror⟩ => ?_
      have hran : ∀ d, b.definitions[i]? = some d → progress i h'' = course d.bean.parts := by
        intro d' hd'
        obtain rfl := Option.some.inj (hd.symm.trans hd')
        rw [ha'.parts i hi, hok rfl]
      refine ⟨(ha.mono (by simp)).trans (ha'.mono (by simp)),
        fun hok' => List.forall_mem_cons.2 ⟨hran, hrest hok'⟩, fun e he => ?_⟩
      obtain ⟨front, j, rest, rfl, hfront, hfails⟩ := herror e he
      exact ⟨i :: front, j, rest, rfl, List.forall_mem_cons.2 ⟨hran, hfront⟩, hfails⟩

end

/-! ## Refreshing -/

namespace Builder

/-- What is done when a builder is refreshed. -/
def acts (b : Builder) : List Act :=
  (assemble b.context).acts b.assembly

/-- How assembling stops with an error. -/
inductive Stops (b : Builder) (e : ContainerError) : List Act → Prop where
  /-- While no bean is at work a definition is looked up and refused with the error; those
  registered before it are ready. -/
  | wiring {h : List Act} {i : Nat} (hi : i < b.definitions.length)
      (hready : ∀ j < i, b.state? h j = some .ready) (hchain : (b.reached h).chain = []) :
      b.Stops e (h ++ [.refuse i e])
  /-- All definitions are ready, and a link callback fails with the error; the link callbacks of the
  definitions registered before have run. -/
  | linking {h : List Act} {i : Nat} (hready : b.AllReady h)
      (hlinked : ∀ j < i, ∀ d, b.definitions[j]? = some d → progress j h = course d.bean.parts)
      (hfails : b.LinkFails i e h) : b.Stops e h

/-- The numbers in front of another one are those that are less. -/
theorem mem_of_range_eq {n i j : Nat} {front rest : List Nat}
    (h : List.range n = front ++ i :: rest) : i < n ∧ (j < i → j ∈ front) := by
  rw [List.range_eq_range', List.range'_eq_append_iff] at h
  obtain ⟨k, hk, rfl, hrest⟩ := h
  obtain ⟨rfl, hpos, -⟩ := List.range'_eq_cons_iff.1 hrest.symm
  simp only [List.mem_range'_1]
  omega

theorem assemble_meets (b : Builder) :
    (assemble b.context).Meets b.assembly [] fun r h' => b.Sound h' ∧
      (r = .ok () → ∀ i d, b.definitions[i]? = some d →
        b.state? h' i = some .ready ∧ progress i h' = course d.bean.parts) ∧
      ∀ e, r = .error e → b.Stops e h' := by
  refine Wiring.meets_bind.2 ((wireEach_meets _ sound_nil).mono
    fun r h ⟨ha, hwired, herror⟩ => ?_)
  cases r with
  | error e =>
    refine ⟨ha.sound, by simp, ?_⟩
    rintro _ ⟨⟩
    obtain ⟨front, i, rest, h', his, hfront, rfl⟩ := herror e rfl
    refine .wiring (mem_of_range_eq (j := 0) his).1 (fun j hj => ?_) ?_
    · exact (state?_snoc_of_none rfl).symm.trans (hfront j ((mem_of_range_eq his).2 hj))
    · have hchain := ha.chain
      rwa [reached_append] at hchain
  | ok u =>
    have hready : b.AllReady h := fun j hj => hwired rfl j (List.mem_range.2 hj)
    refine (linkEach_meets b.context.indices List.nodup_range ha.sound hready
      fun i hi => ?_).mono fun r h' ⟨hl, hran, herror⟩ =>
        ⟨hl.sound, fun hok i d hd => ?_, fun e he => ?_⟩
    · obtain ⟨d, hd⟩ : ∃ d, b.definitions[i]? = some d :=
        ⟨_, List.getElem?_eq_getElem (List.mem_range.1 hi)⟩
      refine ⟨d, hd, (ha.toLink i).trans ?_⟩
      show ((b.definitions.map Definition.slot)[i]?).map (·.toLink) = _
      rw [List.getElem?_map, hd]
      rfl
    · have hi := (List.getElem?_eq_some_iff.1 hd).1
      exact ⟨hl.ready i hi, hran hok i (List.mem_range.2 hi) d hd⟩
    · obtain ⟨front, i, rest, his, hfront, hfails⟩ := herror e he
      exact .linking hl.ready (fun j hj => hfront j ((mem_of_range_eq his).2 hj)) hfails

theorem sound_acts (b : Builder) : b.Sound b.acts :=
  b.assemble_meets.1

section

variable {b : Builder}

theorem AllReady.exists_instance {h : List Act} {i : Nat} (hready : b.AllReady h) (hl : b.Lawful h)
    (hi : i < b.definitions.length) : ∃ inst, (b.reached h).instance? i = some inst :=
  Option.isSome_iff_exists.1 (hl.isSome_instance? (hready i hi))

/-- When assembling succeeds every definition has an instance, so the container is made of all of
them. -/
theorem kept_acts (hrun : ((assemble b.context).run b.assembly).1 = .ok ()) :
    (b.reached b.acts).kept b.context = b.definitions.zip (b.reached b.acts).slots := by
  have hready : b.AllReady b.acts := fun i hi =>
    (b.assemble_meets.2.1 hrun i _ (List.getElem?_eq_getElem hi)).1
  refine List.filter_eq_self.2 fun e he => ?_
  obtain ⟨i, hi⟩ := List.mem_iff_getElem?.1 he
  obtain ⟨hd, hslot⟩ := List.getElem?_zip_eq_some.1 hi
  obtain ⟨inst, hinst⟩ :=
    hready.exists_instance b.sound_acts.lawful (List.getElem?_eq_some_iff.1 hd).1
  rw [Assembly.instance?, hslot] at hinst
  exact Option.isSome_iff_exists.2 ⟨inst, hinst⟩

/-- The container that refreshing gives when it succeeds. -/
def finished (b : Builder) : Container where
  definitions := b.definitions
  store := b.store
  slots := (b.reached b.acts).slots
  ready := (b.reached b.acts).ready
  destroyable := (b.reached b.acts).destroyable b.context
  made := (b.reached b.acts).made
  tasks := 0
  pending := []

/-- Refreshing gives what comes of wiring and linking all definitions, in the assembly after all
acts. -/
theorem refresh_eq (b : Builder) :
    b.refresh = match ((assemble b.context).run b.assembly).1 with
      | .error e => (.error e, (b.reached b.acts).events ++
          destroyAll ((b.reached b.acts).destroyable b.context))
      | .ok () => (.ok b.finished, (b.reached b.acts).events ++ [.refreshed b.definitions.length]) := by
  have hend := (assemble b.context).run_snd b.assembly
  have hkept := kept_acts (b := b)
  unfold Builder.refresh
  generalize (assemble b.context).run b.assembly = x at hend hkept
  obtain ⟨e | u, s⟩ := x
  · obtain rfl : s = _ := hend
    rfl
  · obtain rfl : s = b.reached b.acts := hend
    have hlength := b.length_reached b.acts
    simp only [hkept rfl, List.length_zip, hlength, Nat.min_self, finished,
      List.map_fst_zip (Nat.le_of_eq hlength.symm), List.map_snd_zip (Nat.le_of_eq hlength)]

/-- How refreshing ends. -/
theorem refresh_cases (b : Builder) :
    (∃ e, ((assemble b.context).run b.assembly).1 = .error e ∧
      b.refresh = (.error e, (b.reached b.acts).events ++
        destroyAll ((b.reached b.acts).destroyable b.context))) ∨
    ∃ c, ((assemble b.context).run b.assembly).1 = .ok () ∧
      b.refresh = (.ok c, (b.reached b.acts).events ++ [.refreshed b.definitions.length]) ∧
      c.slots = (b.reached b.acts).slots ∧ c.ready = (b.reached b.acts).ready ∧
      c.destroyable = (b.reached b.acts).destroyable b.context ∧
      ∀ i d, b.definitions[i]? = some d →
        b.state? b.acts i = some .ready ∧ progress i b.acts = course d.bean.parts := by
  rw [refresh_eq]
  cases hrun : ((assemble b.context).run b.assembly).1 with
  | error e => exact .inl ⟨e, rfl, rfl⟩
  | ok u => exact .inr ⟨_, rfl, rfl, rfl, rfl, rfl, b.assemble_meets.2.1 hrun⟩

/-- Refreshing succeeds when wiring and linking all definitions does. -/
theorem refresh_ok {c : Container} {events : List Event} (hok : b.refresh = (.ok c, events)) :
    ((assemble b.context).run b.assembly).1 = .ok () ∧ c = b.finished ∧
      events = (b.reached b.acts).events ++ [.refreshed b.definitions.length] := by
  rw [refresh_eq] at hok
  cases hrun : ((assemble b.context).run b.assembly).1 with
  | error e =>
    rw [hrun] at hok
    cases hok
  | ok u =>
    rw [hrun] at hok
    cases hok
    exact ⟨rfl, rfl, rfl⟩

end

end Builder

end ConfigGraph
