import ConfigGraph.Proofs.Container.Dependencies

/-!
# Cleaning up

When refreshing fails, whether definitions were being wired or linked (`Builder.Stops`), the destroy
callbacks of those that have become ready run, the last of them first, after all else that happens
(`Builder.refresh_cleanup`). Definitions that are half built then are not destroyed.
-/

namespace ConfigGraph.Builder

variable {b : Builder} {h : List Act} {i : Nat}

theorem events_reached (b : Builder) (h : List Act) :
    (b.reached h).events = b.events ++ h.filterMap Act.noted? :=
  Assembly.events_after h

/-- Definitions are destroyed in the opposite of the order in which they become ready. -/
theorem Lawful.pairwise_destroyOrder (hl : b.Lawful h) :
    (b.destroyOrder h).Pairwise fun i j => b.ReadyBefore h j i :=
  List.pairwise_reverse.2 (hl.pairwise_ready.filter _)

/-- What is destroyed is what has a destroy callback and was ready at some time. -/
theorem Lawful.mem_destroyOrder_iff (hl : b.Lawful h) : i ∈ b.destroyOrder h ↔
    (∃ before after, h = before ++ after ∧ b.state? before i = some .ready) ∧
      ∃ d, b.definitions[i]? = some d ∧ d.bean.destroys = true := by
  have hready : b.state? h i = some .ready ↔
      ∃ before after, h = before ++ after ∧ b.state? before i = some .ready := by
    constructor
    · exact fun hi => ⟨h, [], (List.append_nil h).symm, hi⟩
    · rintro ⟨before, after, rfl, hi⟩
      exact hl.settled (.inl rfl) hi
  rw [destroyOrder, List.mem_reverse, List.mem_filter, hl.mem_ready_iff, hready,
    Option.any_eq_true]

/-- Refreshing fails with the error that stops the assembling. What has happened until then is no
destruction; after that the destroy callbacks run of exactly those definitions that have one and
have become ready, each once, in the opposite of the order in which they became ready. -/
theorem refresh_cleanup {e : ContainerError} {events : List Event}
    (he : b.refresh = (.error e, events)) :
    b.Stops e b.acts ∧
    (∃ destroyed, events = b.events ++ b.acts.filterMap Act.noted? ++ destroyed ∧
      destroyed.map some = (b.destroyOrder b.acts).map (b.destruction? b.acts)) ∧
    (∀ handle, .destroyed handle ∉ b.acts.filterMap Act.noted?) ∧
    (b.destroyOrder b.acts).Nodup ∧
    (b.destroyOrder b.acts).Pairwise (fun i j => b.ReadyBefore b.acts j i) ∧
    ∀ i, i ∈ b.destroyOrder b.acts ↔
      (∃ before after, b.acts = before ++ after ∧ b.state? before i = some .ready) ∧
        ∃ d, b.definitions[i]? = some d ∧ d.bean.destroys = true := by
  have hl := b.sound_acts.lawful
  -- the cleanup only adds events: neither the error nor the acts are its own
  rcases b.refresh_cases with ⟨e', hrun, he'⟩ | ⟨c, -, hc, -⟩
  · cases he.symm.trans he'
    have hstops : b.Stops e b.acts := b.assemble_meets.2.2 e hrun
    exact ⟨hstops, ⟨_, by rw [events_reached], hl.destroyAll_destroyable⟩, hl.not_destroyed,
      hl.nodup_destroyOrder, hl.pairwise_destroyOrder, fun i => hl.mem_destroyOrder_iff⟩
  · cases he.symm.trans hc

/-- The constructor of a third bean refuses, when the second one has become ready for the first one
and so before it. -/
def refusing : Builder :=
  pooling.register (.lone "broken" (some "no connection") [])

theorem refresh_cleanup_refusing :
    ∃ events destroyed,
      refusing.refresh = (.error (.construct "broken" "no connection"), events) ∧
      refusing.Stops (.construct "broken" "no connection") refusing.acts ∧
      events = refusing.events ++ refusing.acts.filterMap Act.noted? ++ destroyed ∧
      destroyed = [.destroyed ⟨1, numberedTag (.concrete "cache") 1⟩,
        .destroyed ⟨2, numberedTag (.concrete "pool") 2⟩] ∧
      refusing.ReadyBefore refusing.acts 1 0 := by
  have he : refusing.refresh = (.error (.construct "broken" "no connection"), _) := rfl
  obtain ⟨hstops, ⟨destroyed, hevents, hdestroyed⟩, -, -, horder, -⟩ := refresh_cleanup he
  have hfirst : refusing.destruction? refusing.acts 0 =
      some (.destroyed ⟨1, numberedTag (.concrete "cache") 1⟩) := rfl
  have hsecond : refusing.destruction? refusing.acts 1 =
      some (.destroyed ⟨2, numberedTag (.concrete "pool") 2⟩) := rfl
  have hall : refusing.destroyOrder refusing.acts = [0, 1] := rfl
  rw [hall, List.map_cons, List.map_singleton, hfirst, hsecond] at hdestroyed
  rw [hall] at horder
  refine ⟨_, destroyed, he, hstops, hevents, ?_, ?_⟩
  · exact List.map_injective_iff.2 (fun _ _ => Option.some.inj) hdestroyed
  · exact List.rel_of_pairwise_cons horder (List.mem_singleton_self 1)

end ConfigGraph.Builder
