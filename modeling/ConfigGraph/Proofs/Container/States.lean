import ConfigGraph.Proofs.Container.Refresh
import Mathlib.Data.List.Nodup

/-!
# States of definitions

What refreshing does to each definition. In every assembly on the way slots and chain agree, and no
part of a definition begins twice (`refresh_states`). A definition that fails is not forgotten, even
where its error is discarded: refreshing fails, and no link callback runs (`refresh_failed`).
-/

namespace ConfigGraph

namespace Bean

theorem nodup_parts (b : Bean) : b.parts.Nodup := by
  have hinjectors : ((List.range b.injectors.length).map Part.injector).Nodup :=
    List.nodup_range.map fun _ _ h => Part.injector.inj h
  have hlinks : ((List.range b.links.length).map Part.link).Nodup :=
    List.nodup_range.map fun _ _ h => Part.link.inj h
  unfold parts buildParts initParts linkParts
  split <;> simp [List.nodup_append, hinjectors, hlinks]

/-- A bean of a type of its own whose constructor has no parameters and may refuse. -/
def lone (name : String) (refusal : Option String) (injectors : List Injector) : Bean where
  profile := ⟨name, .concrete name, [⟨.concrete name, false⟩]⟩
  label := ""
  elements := []
  maker := .constructor [] refusal
  args := []
  shape := []
  injectors := injectors
  init := none
  links := []
  destroys := true

end Bean

theorem nodup_course {ps : List Part} (hps : ps.Nodup) : (course ps).Nodup := by
  induction ps with
  | nil => exact List.nodup_nil
  | cons p ps ih =>
    obtain ⟨hp, hps⟩ := List.nodup_cons.1 hps
    have hnot : ∀ m ∈ course ps, m ≠ .begins p ∧ m ≠ .ends p := by
      intro m hm
      obtain ⟨q, hq, hm⟩ := mem_course.1 hm
      have hne : q ≠ p := fun h => hp (h ▸ hq)
      rcases hm with rfl | rfl <;> simp [hne]
    show (Mark.begins p :: .ends p :: course ps).Nodup
    rw [List.nodup_cons, List.nodup_cons, List.mem_cons]
    refine ⟨?_, fun hm => (hnot _ hm).2 rfl, ih hps⟩
    rintro (h | h)
    · cases h
    · exact (hnot _ h).1 rfl

namespace Builder

variable {b : Builder} {h : List Act} {a : Act} {i : Nat}

/-- There is no progress of a definition that there is not. -/
theorem Lawful.progress_eq_nil (hl : b.Lawful h) (hd : b.definitions[i]? = none) :
    progress i h = [] := by
  refine hl.induct (P := fun h => progress i h = []) rfl fun h a _ hp ha => ?_
  rw [progress_append_singleton, hp]
  cases hm : a.markOf? i with
  | none => rfl
  | some m =>
    obtain ⟨d, hd', -⟩ := ha.of_markOf? hm
    cases hd.symm.trans hd'

/-- Along a lawful history no part of a definition begins twice. -/
theorem Lawful.nodup_progress (hl : b.Lawful h) (i : Nat) : (progress i h).Nodup := by
  cases hd : b.definitions[i]? with
  | none =>
    rw [hl.progress_eq_nil hd]
    exact List.nodup_nil
  | some d => exact (nodup_course d.bean.nodup_parts).sublist (hl.progress_prefix hd).sublist

/-- Each of the parts that have run has begun and ended once. -/
theorem Lawful.count_progress (hl : b.Lawful h) {ps : List Part} (hran : progress i h = course ps)
    {p : Part} (hp : p ∈ ps) :
    (progress i h).count (.begins p) = 1 ∧ (progress i h).count (.ends p) = 1 := by
  have hbegins : .begins p ∈ progress i h := hran ▸ mem_course.2 ⟨p, hp, .inl rfl⟩
  have hends : .ends p ∈ progress i h := hran ▸ mem_course.2 ⟨p, hp, .inr rfl⟩
  have hnodup := hl.nodup_progress i
  exact ⟨List.count_eq_one_of_mem hnodup hbegins, List.count_eq_one_of_mem hnodup hends⟩

/-- The states through which refreshing takes the definitions. At any time a definition has still to
be built exactly while it is unwired, it has an instance exactly once it is ready, and it is being
wired exactly while it is in progress, where no definition is twice. What is ready or has failed
stays so. No part of a definition begins twice; when refreshing succeeds, each definition is ready,
and each of its parts has begun and ended once. -/
theorem refresh_states (b : Builder) :
    (∀ before after, b.acts = before ++ after →
      (b.reached before).wirings.Nodup ∧
      ∀ i slot, (b.reached before).slots[i]? = some slot →
        (slot.toBuild = true ↔ slot.state = .unwired) ∧
        (slot.inst.isSome = true ↔ slot.state = .ready) ∧
        (slot.state = .wiring ↔ i ∈ (b.reached before).wirings)) ∧
    (∀ before middle after i st, b.acts = before ++ middle ++ after → st = .ready ∨ st = .failed →
      b.state? before i = some st → b.state? (before ++ middle) i = some st) ∧
    (∀ i p, (progress i b.acts).count (.begins p) ≤ 1) ∧
    ∀ c events, b.refresh = (.ok c, events) → ∀ i d, b.definitions[i]? = some d →
      (c.slots[i]?).map (·.state) = some .ready ∧
      ∀ p ∈ d.bean.parts, (progress i b.acts).count (.begins p) = 1 ∧
        (progress i b.acts).count (.ends p) = 1 := by
  have hl := b.sound_acts.lawful
  refine ⟨fun before after he => ?_, fun before middle after i st he hst hi => ?_,
    fun i p => List.nodup_iff_count_le_one.1 (hl.nodup_progress i) _, ?_⟩
  · have hc := (Lawful.of_append (he ▸ hl)).consistent
    refine ⟨hc.nodup, fun i slot hslot => ?_⟩
    obtain ⟨hbuild, hinst⟩ := hc.coherent slot (List.mem_of_getElem? hslot)
    refine ⟨hbuild, hinst, ?_⟩
    rw [← hc.wiring_iff, Assembly.state?, hslot]
    simp
  · exact (Lawful.of_append (he ▸ hl)).settled hst hi
  · rintro c events hok i d hd
    rcases b.refresh_cases with ⟨e, -, he⟩ | ⟨c', -, hc', hslots, -, -, hready⟩
    · cases hok.symm.trans he
    · obtain rfl : c = c' := by cases hok.symm.trans hc'; rfl
      obtain ⟨hi, hran⟩ := hready i d hd
      exact ⟨hslots ▸ hi, fun p hp => hl.count_progress hran hp⟩

/-- A link callback begins only when all definitions are ready. -/
theorem Lawful.ready_of_link (hl : b.Lawful (h ++ [a])) {owner : Option Nat} {k : Nat}
    (ha : a = .mark owner (.begins (.link k))) :
    b.AllReady h := by
  obtain ⟨-, hlegal⟩ := lawful_append_singleton.1 hl
  subst ha
  cases owner with
  | none => exact hlegal.elim
  | some j =>
    obtain ⟨d, -, -, -, hlink⟩ := hlegal
    exact (hlink rfl).2

/-- Where a definition fails at some time, no link callback begins, neither before nor after. -/
theorem Lawful.not_link_of_failed {before after : List Act} (hl : b.Lawful (before ++ after))
    (hi : b.state? before i = some .failed) (owner : Option Nat) (k : Nat) :
    .mark owner (.begins (.link k)) ∉ before ++ after := by
  intro hmem
  obtain ⟨before', rest, hsplit⟩ := List.append_of_mem hmem
  have hlink : b.Lawful (before' ++ [.mark owner (.begins (.link k))]) :=
    .of_append (k := rest) (by rw [List.append_assoc]; exact hsplit ▸ hl)
  have hready : b.state? before' i = some .ready :=
    hlink.ready_of_link rfl i (state?_isSome.1 (Option.isSome_of_eq_some hi))
  -- Either the definition had failed by then, or it had been ready before it failed.
  have hp : before <+: before ++ after := List.prefix_append _ _
  rcases List.prefix_or_prefix_of_prefix hp ⟨_, hsplit.symm⟩ with ⟨m, rfl⟩ | ⟨m, rfl⟩
  · cases hready.symm.trans (hlink.of_append.settled (.inr rfl) hi)
  · cases hi.symm.trans (hl.of_append.settled (.inl rfl) hready)

/-- A failure is not lost. When a definition has failed, whether its error was discarded or not,
refreshing ends with an error, no link callback runs, and every later lookup that comes to the
definition is refused, with its name. -/
theorem refresh_failed {before after : List Act} {d : Definition}
    (hacts : b.acts = before ++ after) (hd : b.definitions[i]? = some d)
    (hi : b.state? before i = some .failed) :
    (∃ e events, b.refresh = (.error e, events)) ∧
    (∀ owner k, .mark owner (.begins (.link k)) ∉ b.acts) ∧
    (∀ middle rest, after = middle ++ .ask i :: rest →
      ∃ rest', rest = .refuse i (.wiringFailed d.bean.profile.name) :: rest') ∧
    ∀ middle rest, after = middle ++ rest → ∀ depth,
      (fetch (wire b.context depth) i).run (b.reached (before ++ middle)) =
        (.error (.wiringFailed d.bean.profile.name), b.reached (before ++ middle)) := by
  have hs := b.sound_acts
  have hlater : ∀ middle rest, after = middle ++ rest → b.Lawful (before ++ middle) ∧
      b.state? (before ++ middle) i = some .failed := by
    rintro middle rest rfl
    have hl : b.Lawful (before ++ middle) := by
      rw [hacts, ← List.append_assoc] at hs
      exact hs.lawful.of_append
    exact ⟨hl, hl.settled (.inr rfl) hi⟩
  refine ⟨?_, fun owner k hmem => ?_, fun middle rest hafter => ?_,
    fun middle rest hafter depth => ?_⟩
  · rcases b.refresh_cases with ⟨e, -, he⟩ | ⟨c, -, -, -, -, -, hready⟩
    · exact ⟨e, _, he⟩
    · obtain ⟨-, hend⟩ := hlater after [] (by simp)
      rw [← hacts, (hready i d hd).1] at hend
      cases hend
  · rw [hacts] at hs hmem
    exact hs.lawful.not_link_of_failed hi owner k hmem
  · obtain ⟨-, hfailed⟩ := hlater middle _ hafter
    obtain ⟨d', rest', hd', hrest⟩ := hs.answered (before ++ middle) i rest
      (by rw [hacts, hafter, List.append_assoc]) hfailed
    obtain rfl := Option.some.inj (hd.symm.trans hd')
    exact ⟨rest', hrest⟩
  · obtain ⟨hl, hfailed⟩ := hlater middle rest hafter
    obtain ⟨r, h', hrun, rfl, rfl⟩ := ((wires_wire b depth).fetch_failed hl hd hfailed).run_eq
    exact hrun.trans (by rw [Assembly.after_append, Assembly.after_append]; rfl)

/-- An injector of the first bean looks up the second one and discards its error. -/
def discarding : Builder :=
  ((start .empty).register
    (.lone "cache" none [.act ⟨.get (.concrete "pool") .inferred, true⟩])).register
      (.lone "pool" (some "no connection") [])

theorem refresh_failed_discarding :
    discarding.state? (discarding.acts.take 12) 1 = some .failed ∧
    (∃ e events, discarding.refresh = (.error e, events)) ∧
    (∀ owner k, .mark owner (.begins (.link k)) ∉ discarding.acts) ∧
    ∃ rest', (discarding.acts.drop 12).drop 7 = .refuse 1 (.wiringFailed "pool") :: rest' := by
  have hfailed : discarding.state? (discarding.acts.take 12) 1 = some .failed := by decide
  obtain ⟨herror, hlink, hlater, -⟩ := refresh_failed (b := discarding)
    (List.take_append_drop 12 _).symm rfl hfailed
  exact ⟨hfailed, herror, hlink, hlater ((discarding.acts.drop 12).take 6) _ rfl⟩

end Builder

end ConfigGraph
