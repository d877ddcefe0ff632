import ConfigGraph.Proofs.Container.Abreast
import ConfigGraph.Proofs.Container.Dependencies

/-!
# Singletons

A definition has one instance. Once it is ready its instance stays the same
(`Lawful.instance?_settled`), so what a lookup hands out while a builder is refreshed is the instance
that the container holds, and a lookup in a link callback comes to the same as a lookup in the
container (`Builder.singletons`): both go side by side.
-/

namespace ConfigGraph

open Wiring

namespace Container

variable {α β : Type} (c : Container)

/-- What happens while something runs in a container. -/
theorem events_run (x : Wiring α) : (c.run x).2.1 = (x.acts c.assembly).filterMap Act.noted? := by
  show (x.run c.assembly).2.events = _
  rw [run_snd, Assembly.events_after]
  rfl

theorem run_map (f : α → β) (x : Wiring α) :
    c.run (f <$> x) = ((c.run x).1.map f, (c.run x).2) := by
  unfold run
  rw [Wiring.run_map]

end Container

namespace Builder

variable {b : Builder} {h k : List Act} {i : Nat}

/-- The instance of a ready definition is never replaced. -/
theorem Lawful.instance?_settled (hl : b.Lawful (h ++ k)) {inst : Instance}
    (hi : (b.reached h).instance? i = some inst) :
    (b.reached (h ++ k)).instance? i = some inst := by
  induction k using List.reverseRecOn with
  | nil => rwa [List.append_nil]
  | append_singleton k a ih =>
    rw [← List.append_assoc] at hl ⊢
    obtain ⟨hlk, ha⟩ := lawful_append_singleton.1 hl
    have hk := ih hlk
    have hready : b.state? (h ++ k) i = some .ready := hlk.state?_of_instance? hk
    rw [reached_append, Assembly.after_cons, Assembly.after_nil, Assembly.instance?_act]
    split
    · split
      · rename_i hij
        subst hij
        obtain ⟨d, -, hwired, -⟩ := ha
        cases hready.symm.trans hwired
      · exact hk
    · exact hk

/-- What a definition has as its instance at some time is what the container holds. -/
theorem instance?_finished (hacts : b.acts = h ++ k) {inst : Instance}
    (hi : (b.reached h).instance? i = some inst) : b.finished.assembly.instance? i = some inst := by
  have hl := b.sound_acts.lawful
  rw [hacts] at hl
  have hend := hl.instance?_settled hi
  rw [← hacts] at hend
  exact hend

/-- The container holds an instance of each definition. -/
theorem exists_instance_finished (hrun : ((assemble b.context).run b.assembly).1 = .ok ())
    (hi : i < b.definitions.length) : ∃ inst, b.finished.assembly.instance? i = some inst := by
  have hready : b.AllReady b.acts := fun j hj =>
    (b.assemble_meets.2.1 hrun j _ (List.getElem?_eq_getElem hj)).1
  exact hready.exists_instance b.sound_acts.lawful hi

/-- A history is sound up to any act that is not a refusal. -/
theorem Sound.of_append_cons {a : Act} (hs : b.Sound (h ++ a :: k)) (ha : ∀ j e, a ≠ .refuse j e) :
    b.Sound h where
  lawful := hs.lawful.of_append
  answered := by
    intro before j rest he hj
    subst he
    obtain ⟨d, rest', hd, hrest⟩ := hs.answered before j (rest ++ a :: k) (by simp) hj
    cases rest with
    | nil => exact absurd (List.cons.inj hrest).1 (ha _ _)
    | cons c rest => exact ⟨d, rest, hd, by rw [(List.cons.inj hrest).1]⟩

/-- Two histories after which each definition has the same instance in an assembly of a builder and
in its container. -/
def Shared (b : Builder) (c : Container) (h k : List Act) : Prop :=
  ∀ i < b.definitions.length, ∃ inst, (b.reached h).instance? i = some inst ∧
    (c.assembly.after k).instance? i = some inst

/-- While each definition has the instance that the container holds, lookups go side by side in the
assembly of the builder and in the container. -/
theorem abreast_finished (b : Builder) :
    Abreast b.assembly b.finished.assembly (b.Shared b.finished) b.context b.finished.context []
      (wireBean b.context) (wireBean b.finished.context) where
  widens := ⟨(List.append_nil _).symm, rfl⟩
  silent h k a ha hR i hi := by
    obtain ⟨inst, hs, ht⟩ := hR i hi
    refine ⟨inst, ?_, ?_⟩
    · rw [reached, ha.after_snoc]
      exact hs
    · rw [ha.after_snoc]
      exact ht
  inner i hi := alike_wire b.context b.finished.context hi hi (fun h k hR => hR i hi) _ _

/-- Lookups of beans are answered alike when no definition is added. -/
theorem same_finished {q : Lookup} (hq : q ≠ .container) :
    b.context.Same b.finished.context [] q := by
  cases q with
  | container => exact absurd rfl hq
  | _ => exact fun d hd => absurd hd List.not_mem_nil

theorem ne_container_of_asks {type : TypeId} {ss : List Selector} {q : Lookup}
    (hq : asksCollect type ss q) : q ≠ .container := by
  cases ss with
  | nil =>
    obtain rfl : q = .every type := hq
    simp
  | cons s rest =>
    obtain ⟨s', -, rfl⟩ := hq
    simp

/-- After a link callback has begun, each definition has the instance that the container holds. -/
theorem shared_of_link {before after : List Act} (hacts : b.acts = before ++ after)
    {owner : Option Nat} {n : Nat} (hlink : .mark owner (.begins (.link n)) ∈ before) :
    b.Shared b.finished before [] := by
  have hl := b.sound_acts.lawful
  intro i hi
  obtain ⟨front, rest, rfl⟩ := List.append_of_mem hlink
  have hl' : b.Lawful (front ++ [.mark owner (.begins (.link n))]) :=
    .of_append (k := rest ++ after) (by rw [hacts] at hl; simpa using hl)
  obtain ⟨inst, hfront⟩ := (hl'.ready_of_link rfl).exists_instance hl'.of_append hi
  have hbefore := Lawful.instance?_settled (.of_append (hacts ▸ hl)) hfront
  exact ⟨inst, hbefore, instance?_finished hacts hbefore⟩

/-- Singletons are shared. When refreshing succeeds, looking up a bean or several of them in a link
callback gives the same as in the container, be it instances or an error, and the builder finds the
same beans as the container, where all of them are ready. An instance that was handed out at any
time while the builder was refreshed, or given to a lookup, is the one that the container holds. -/
theorem singletons {c : Container} {events : List Event} (hok : b.refresh = (.ok c, events)) :
    (∀ before after owner n, b.acts = before ++ after →
      .mark owner (.begins (.link n)) ∈ before →
      (∀ type s, (c.step (.get type s)).1 =
        ((getBean b.context (wireBean b.context) type s).run (b.reached before)).1.map .bean) ∧
      (∀ type s, ((locate c.context (wireBean c.context) type s).run c.assembly).1 =
        ((locate b.context (wireBean b.context) type s).run (b.reached before)).1) ∧
      ∀ type ss, (c.step (.collect type ss)).1 =
        ((collectBeans b.context (wireBean b.context) type ss).run (b.reached before)).1.map
          .beans) ∧
    (∀ s, c.find s = (b.find s).map fun info => { info with state := .ready }) ∧
    (∀ before after depth i inst, b.acts =
        before ++ (fetch (wire b.context depth) i).acts (b.reached before) ++ after →
      ((fetch (wire b.context depth) i).run (b.reached before)).1 = .ok inst →
      c.assembly.instance? i = some inst) ∧
    ∀ before after i, b.acts = before ++ .receive i :: after → ∃ inst,
      (b.reached before).instance? i = some inst ∧ c.assembly.instance? i = some inst := by
  obtain ⟨-, rfl, -⟩ := refresh_ok hok
  have hl := b.sound_acts.lawful
  have ha := b.abreast_finished
  refine ⟨fun before after owner n hacts hlink => ?_, fun s => ?_,
    fun before after depth i inst hacts hfetch => ?_, fun before after i hacts => ?_⟩
  · have hR := shared_of_link hacts hlink
    refine ⟨fun type s => ?_, fun type s => ?_, fun type ss => ?_⟩
    · have hget := ha.getBean (same_finished (q := .one type s) (by simp)) before [] hR
      exact (congrArg Prod.fst (Container.run_map ..)).trans (congrArg (Except.map _) hget.1)
    · exact (ha.locate (same_finished (q := .one type s) (by simp)) before [] hR).1
    · have hcollect := ha.collectBeans
        (fun q (hq : asksCollect type ss q) => same_finished (ne_container_of_asks hq)) before [] hR
      exact (congrArg Prod.fst (Container.run_map ..)).trans (congrArg (Except.map _) hcollect.1)
  · show (b.definitions.filter _).map _ = ((b.definitions.filter _).map _).map _
    rw [List.map_map]
    rfl
  · have hs : b.Sound before := by
      have hs := b.sound_acts
      rw [hacts, List.append_assoc] at hs
      exact hs.of_append_cons (a := .ask i) (by simp)
    obtain ⟨-, hinst⟩ := (wires_wire b depth).fetch_meets i hs
    exact instance?_finished hacts (hinst inst hfetch)
  · have hlegal : b.state? before i = some .ready := hl before _ after hacts
    have hbefore : b.Lawful before := .of_append (hacts ▸ hl)
    obtain ⟨inst, hinst⟩ := Option.isSome_iff_exists.1 (hbefore.isSome_instance? hlegal)
    exact ⟨inst, hinst, instance?_finished hacts hinst⟩

/-- A link callback of the first bean looks up the second one. -/
def linking : Builder :=
  ((start .empty).register
    { Bean.lone "cache" none [] with links := [⟨.get (.concrete "pool") .inferred, false⟩] }).register
      (.lone "pool" none [])

theorem singletons_linking : ∃ c events, linking.refresh = (.ok c, events) ∧
    .mark (some 0) (.begins (.link 0)) ∈ linking.acts.take 21 ∧
    (c.step (.get (.concrete "pool") .inferred)).1 =
      ((getBean linking.context (wireBean linking.context) (.concrete "pool") .inferred).run
        (linking.reached (linking.acts.take 21))).1.map .bean ∧
    c.assembly.instance? 1 = some ((Bean.lone "pool" none []).instantiate 1 []) := by
  have hok : linking.refresh = (.ok linking.finished, _) := rfl
  have hlink : .mark (some 0) (.begins (.link 0)) ∈ linking.acts.take 21 :=
    mem_progress.1 (by decide)
  obtain ⟨hlookups, -, -, -⟩ := singletons hok
  obtain ⟨hget, -, -⟩ := hlookups _ _ _ _ (List.take_append_drop 21 linking.acts).symm hlink
  exact ⟨_, _, hok, hlink, hget _ _, rfl⟩

end Builder

end ConfigGraph
