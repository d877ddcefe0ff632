import ConfigGraph.Proofs.Container.Circular

/-!
# Root causes

Where no callback discards an error (`Builder.Forwards`), the first step that fails ends the refresh
with its error (`Builder.Breaks`): after that nothing is done but to undo what is in progress
(`Act.Unwinds`), and every definition in progress fails (`Builder.refresh_root_cause`).
-/

namespace ConfigGraph

open Wiring

namespace Act

/-- An act by which a definition or a callback is seen to have failed. -/
def Fails : Act → Prop
  | leave _ success => success = false
  | abandon _ => True
  | note (.acted _ _ _ (.error _)) => True
  | _ => False

/-- An act that is done on the way out, when something has failed with an error. -/
inductive Unwinds (e : ContainerError) : Act → Prop where
  | undo {a : Act} (ha : a.Undoes e) : Unwinds e a
  | refuse (i : Nat) : Unwinds e (.refuse i e)

end Act

namespace Builder

/-- A history in which nothing is seen to have failed. -/
def Clean (h : List Act) : Prop :=
  ∀ a ∈ h, ¬ a.Fails

/-- No callback that begins in a history discards an error. -/
def Forwards (b : Builder) (h : List Act) : Prop :=
  ∀ before i p after d c, h = before ++ .mark (some i) (.begins p) :: after →
    b.definitions[i]? = some d → d.bean.callback? p = some c →
      c.Forwards b.context (b.wireAt (before ++ [.mark (some i) (.begins p)])) b.assembly
        (before ++ [.mark (some i) (.begins p)])

/-- At the end of a history some step of a definition fails with an error. -/
def Breaks (b : Builder) (e : ContainerError) (h : List Act) : Prop :=
  ∃ before a, ∃ (α : Type) (x : Wiring α), b.Step before a x ∧
    x.Meets b.assembly (before ++ [a]) fun r h' => r = .error e ∧ h' = h

/-- Some step has failed with an error as the first one, and since then all has been unwound. -/
def Broken (b : Builder) (e : ContainerError) (h : List Act) : Prop :=
  ∃ before unwinding, h = before ++ unwinding ∧ b.Breaks e before ∧ Clean before ∧
    ∀ a ∈ unwinding, a.Unwinds e

variable {b : Builder} {h k : List Act} {a : Act} {i : Nat} {e : ContainerError}

theorem Clean.snoc (hc : Clean h) (ha : ¬ a.Fails) : Clean (h ++ [a]) := by
  simpa [Clean, or_imp, forall_and] using ⟨hc, ha⟩

theorem Forwards.of_append (hf : b.Forwards (h ++ k)) : b.Forwards h :=
  fun before i p after d c he => hf before i p (after ++ k) d c (by rw [he]; simp)

theorem Broken.snoc (hb : b.Broken e h) (ha : a.Unwinds e) : b.Broken e (h ++ [a]) := by
  obtain ⟨before, unwinding, rfl, hbreaks, hclean, hunwinds⟩ := hb
  refine ⟨before, unwinding ++ [a], List.append_assoc .., hbreaks, hclean, ?_⟩
  simpa [or_imp, forall_and] using ⟨hunwinds, ha⟩

/-- Where callbacks forward errors, nothing is seen to have failed until a step fails, and then its
error goes all the way out. -/
theorem conduct_broken (b : Builder) : b.Conduct (fun h => b.Forwards h → Clean h)
    (fun e h => b.Forwards h → Clean h ∨ b.Broken e h)
    (fun e h => b.Forwards h → b.Broken e h) where
  plain _ hgood hf := .inl (hgood hf)
  calm he hgood hf := (hgood hf.of_append).snoc (by cases he <;> exact id)
  number _ hgood hf := (hgood hf.of_append).snoc id
  lasting _ hgood hf := .inl (hgood hf)
  start _ := by simp [Clean]
  proceed ha hgood hf := by
    refine (hgood hf.of_append).snoc ?_
    cases ha with
    | leave => exact nofun
    | _ => exact id
  invented _ hgood hf := .inl (hgood hf)
  weaken hfailed hf := .inr (hfailed hf)
  pass {h i d p c} hd hc := by
    by_cases hforward : c.Forwards b.context (b.wireAt (h ++ [.mark (some i) (.begins p)]))
        b.assembly (h ++ [.mark (some i) (.begins p)])
    · exact .inl hforward
    · -- the history is none of those that are spoken of
      refine .inr fun e k _ hf => absurd (hf h i p k d c ?_ hd hc) hforward
      simp
  step {h a α x} hstep hx := by
    have hself : x.Meets b.assembly (h ++ [a]) fun r h' =>
        x.Meets b.assembly (h ++ [a]) fun r' h'' => r' = r ∧ h'' = h' := ⟨rfl, rfl⟩
    refine (hx.and hself).mono fun r h' ⟨hend, hself⟩ => ?_
    cases r with
    | ok v => exact hend
    | error e =>
      refine fun hf => (hend hf).elim (fun hclean => ?_) id
      exact ⟨h', [], (List.append_nil _).symm, ⟨h, a, α, x, hstep, hself⟩, hclean, by simp⟩
  undo ha hfailed hf := (hfailed hf.of_append).snoc (.undo ha)
  refuse _ _ hgood hf := .inl ((hgood hf.of_append).snoc id)
  passOn _ _ hfailed hf := .inr ((hfailed hf.of_append).snoc (.refuse _))

/-! ## Where nothing has failed -/

theorem Clean.state?_ne_failed (hc : Clean h) (i : Nat) : b.state? h i ≠ some .failed := by
  induction h using List.reverseRecOn with
  | nil =>
    intro hi
    cases (state?_nil (state?_isSome.1 (Option.isSome_of_eq_some hi))).symm.trans hi
  | append_singleton h a ih =>
    have hold := ih fun c hc' => hc c (List.mem_append_left _ hc')
    have ha : ¬ a.Fails := hc a (by simp)
    intro hi
    rw [state?_append_singleton] at hi
    split at hi
    · rename_i j st hmove
      split at hi
      · obtain ⟨-, -, rfl⟩ := Option.map_eq_some_iff.1 hi
        cases a with
        | leave _ success => cases success <;> simp [Act.moves?, Act.Fails] at hmove ha
        | abandon => exact ha trivial
        | _ => cases hmove
      · exact hold hi
    · exact hold hi

/-- While nothing has failed and no definition is being wired, a lookup is not refused at once. -/
theorem Clean.not_refuses (hc : Clean h) (hl : b.Lawful h) (hchain : (b.reached h).chain = [])
    (hwired : ∀ j, b.state? h j ≠ some .wired) : ¬ b.Refuses (h ++ [.ask i]) i e := by
  intro hr
  generalize hk : h ++ [.ask i] = k at hr
  cases hr with
  | failed hd hstate =>
    obtain ⟨rfl, -⟩ := List.append_inj' hk rfl
    exact hc.state?_ne_failed i hstate
  | busy hd hslot hinst hfailed hroom =>
    obtain ⟨rfl, -⟩ := List.append_inj' hk rfl
    have hwiring := hl.wiring_of_refuses hwired (.busy hd hslot hinst hfailed hroom)
    have hmem := (hl.consistent.wiring_iff i).1 hwiring
    rw [Assembly.wirings, hchain] at hmem
    cases hmem

/-- Where refreshing stops with an error something has failed. -/
theorem not_clean_of_stops (hstops : b.Stops e b.acts) : ¬ Clean b.acts := by
  have hl := b.sound_acts.lawful
  have hg := b.grounded_acts
  generalize b.acts = h at hstops hl hg
  intro hc
  cases hstops with
  | linking _ _ hfails =>
    obtain ⟨d, k, c, handle, h', -, -, -, rfl, -⟩ := hfails
    exact hc (.note (.acted .link handle c.action.name (.error e))) (by simp) trivial
  | @wiring h i hi hready hchain =>
    obtain ⟨-, hr | ⟨⟨h', a, rfl, ha⟩, -⟩⟩ := hg h (.refuse i e) [] rfl
    · have hasked : ∃ h', h = h' ++ [.ask i] := by cases hr <;> exact ⟨_, rfl⟩
      obtain ⟨h', rfl⟩ := hasked
      have hwired := (hg h' (.ask i) [.refuse i e] (by simp)).2
      rw [reached_append] at hchain
      exact Clean.not_refuses (fun a ha => hc a (by simp [ha])) hl.of_append.of_append hchain hwired
        hr
    · refine hc a (by simp) ?_
      cases ha <;> trivial

/-! ## Where something has failed -/

/-- On the way out a definition stays as it is, or it fails. -/
theorem state?_unwinding (hu : ∀ a ∈ k, a.Unwinds e) (hi : i < b.definitions.length) :
    b.state? (h ++ k) i = b.state? h i ∨ b.state? (h ++ k) i = some .failed := by
  induction k using List.reverseRecOn with
  | nil => exact .inl (by rw [List.append_nil])
  | append_singleton k a ih =>
    have hold := ih fun c hc => hu c (List.mem_append_left _ hc)
    rw [← List.append_assoc]
    have hdrop : ∀ j, a.moves? = some (j, .failed) →
        b.state? (h ++ k ++ [a]) i = b.state? (h ++ k) i ∨
          b.state? (h ++ k ++ [a]) i = some .failed := by
      intro j hmove
      by_cases hij : j = i
      · exact .inr (state?_move (hij ▸ hmove) hi)
      · left
        rw [state?_append_singleton, hmove]
        exact if_neg hij
    have hlast : b.state? (h ++ k ++ [a]) i = b.state? (h ++ k) i ∨
        b.state? (h ++ k ++ [a]) i = some .failed := by
      cases hu a (by simp) with
      | undo ha =>
        cases ha with
        | drop ha => cases ha <;> exact hdrop _ rfl
        | _ => exact .inl (state?_snoc_of_none rfl)
      | refuse j => exact .inl (state?_snoc_of_none rfl)
    rcases hlast with hlast | hlast
    · rwa [hlast]
    · exact .inr hlast

/-- Where refreshing has come to its end no definition is in progress. -/
theorem ne_inProgress_acts (b : Builder) (i : Nat) :
    b.state? b.acts i ≠ some .wiring ∧ b.state? b.acts i ≠ some .wired := by
  have hends : (assemble b.context).Meets b.assembly [] fun _ h =>
      (b.reached h).chain = [] ∧ ∀ j, b.state? h j ≠ some .wired := by
    refine b.conduct_grounded.assemble_ends.mono fun r h hr => ?_
    cases r with
    | ok u => exact ⟨hr.2.chain, hr.2.wired⟩
    | error e =>
      rcases hr with ⟨-, hu⟩ | ⟨-, hf⟩
      · exact ⟨hu.chain, hu.ne_wired⟩
      · exact ⟨hf.chain, hf.wired⟩
  obtain ⟨hchain, hwired⟩ : (b.reached b.acts).chain = [] ∧ ∀ j, b.state? b.acts j ≠ some .wired :=
    hends
  refine ⟨fun hi => ?_, hwired i⟩
  have hmem := (b.sound_acts.lawful.consistent.wiring_iff i).1 hi
  rw [Assembly.wirings, hchain] at hmem
  cases hmem

/-- The root cause surfaces unchanged. In a refresh in which no callback discards an error, refreshing
succeeds only if nothing fails. Otherwise it fails with the error of the first step that fails,
whatever lies between that step and the outermost definition. After that only the way out is left: no
part of any definition begins, and every definition in progress fails. -/
theorem refresh_root_cause (hforward : b.Forwards b.acts) :
    (∀ c events, b.refresh = (.ok c, events) → ∀ a ∈ b.acts, ¬ a.Fails) ∧
    ∀ e events, b.refresh = (.error e, events) → ∃ before unwinding,
      b.acts = before ++ unwinding ∧ b.Breaks e before ∧ (∀ a ∈ before, ¬ a.Fails) ∧
      (∀ a ∈ unwinding, a.Unwinds e) ∧
      (∀ owner p, .mark owner (.begins p) ∉ unwinding) ∧
      ∀ i, b.state? before i = some .wiring ∨ b.state? before i = some .wired →
        b.state? b.acts i = some .failed := by
  have hends : Ends (fun h => (b.Forwards h → Clean h) ∧ b.Furnished [] h) (fun e h =>
      ((b.Forwards h → Clean h ∨ b.Broken e h) ∧ b.Underway [] none h) ∨
        ((b.Forwards h → b.Broken e h) ∧ b.Furnished [] h))
      ((assemble b.context).run b.assembly).1 b.acts := b.conduct_broken.assemble_ends
  rcases b.refresh_cases with ⟨e, hrun, he⟩ | ⟨c, hrun, hc, -⟩
  · refine ⟨fun c events hok => (by cases hok.symm.trans he), ?_⟩
    rintro e' events he'
    obtain rfl : e' = e := by
      cases he'.symm.trans he
      rfl
    rw [hrun] at hends
    have hbroken : b.Broken e' b.acts := by
      rcases hends with ⟨hgiven, -⟩ | ⟨hfailed, -⟩
      · exact (hgiven hforward).resolve_left (not_clean_of_stops (b.assemble_meets.2.2 e' hrun))
      · exact hfailed hforward
    obtain ⟨before, unwinding, hacts, hbreaks, hclean, hunwinds⟩ := hbroken
    refine ⟨before, unwinding, hacts, hbreaks, hclean, hunwinds, fun owner p hmem => ?_,
      fun i hi => ?_⟩
    · cases hunwinds _ hmem with
      | undo ha => cases ha with | drop ha => cases ha
    · have hlen : i < b.definitions.length :=
        hi.elim (fun hi => state?_isSome.1 (Option.isSome_of_eq_some hi))
          fun hi => state?_isSome.1 (Option.isSome_of_eq_some hi)
      obtain ⟨hwiring, hwired⟩ := b.ne_inProgress_acts i
      rw [hacts] at hwiring hwired ⊢
      refine (state?_unwinding hunwinds hlen).resolve_left fun hsame => ?_
      rw [hsame] at hwiring hwired
      exact hi.elim hwiring hwired
  · refine ⟨fun _ _ _ => ?_, fun e events he => (by cases he.symm.trans hc)⟩
    rw [hrun] at hends
    exact hends.1 hforward

/-- Callbacks that do one thing and fail with its error discard none. -/
theorem forwards_of_direct (hb : ∀ d ∈ b.definitions, ∀ c, .act c ∈ d.bean.injectors ∨
    c ∈ d.bean.links → c.swallow = false ∧ ∀ s, c.action ≠ .script s) (h : List Act) :
    b.Forwards h := by
  intro before i p after d c _ hd hc
  have hmem : .act c ∈ d.bean.injectors ∨ c ∈ d.bean.links := by
    cases p with
    | injector k =>
      obtain ⟨j, hj, hc⟩ := Option.bind_eq_some_iff.1 hc
      cases j with
      | act c' =>
        cases hc
        exact .inl (List.mem_of_getElem? hj)
      | bindSelf tag => cases hc
    | link k => exact .inr (List.mem_of_getElem? hc)
    | constructor => cases hc
    | init => cases hc
  obtain ⟨hswallow, hscript⟩ := hb d (List.mem_of_getElem? hd) c hmem
  refine ⟨?_, by simp [hswallow]⟩
  cases haction : c.action with
  | script s => exact absurd haction (hscript s)
  | _ => trivial

/-- The first bean may have the second one, which has all of the third, in which an injector fails. -/
def layers : List Bean :=
  [{ Bean.lone "app" none [] with maker := .constructor [.option (.bean (.concrete "store"))] none },
    { Bean.lone "store" none [] with maker := .constructor [.collect (.concrete "log")] none },
    .lone "log" none [.act ⟨.fail "disk full", false⟩]]

theorem refresh_root_cause_layers :
    (registered .empty layers).Forwards (registered .empty layers).acts ∧
    ∃ events before unwinding, (registered .empty layers).refresh =
        (.error (.invocation "disk full"), events) ∧
      (registered .empty layers).acts = before ++ unwinding ∧
      (registered .empty layers).Breaks (.invocation "disk full") before ∧
      ∀ a ∈ unwinding, a.Unwinds (.invocation "disk full") := by
  have hforward : (registered .empty layers).Forwards (registered .empty layers).acts := by
    refine forwards_of_direct (fun d hd c hc => ?_) _
    have hbean : d.bean ∈ layers := map_bean_registered .empty layers ▸ List.mem_map_of_mem hd
    simp only [layers, List.mem_cons, List.not_mem_nil, or_false] at hbean
    rcases hbean with hbean | hbean | hbean <;> rw [hbean] at hc <;> simp [Bean.lone] at hc
    simp [hc]
  obtain ⟨-, hcause⟩ := refresh_root_cause hforward
  have he : (registered .empty layers).refresh = (.error (.invocation "disk full"), _) := rfl
  obtain ⟨before, unwinding, hacts, hbreaks, -, hunwinds, -⟩ := hcause _ _ he
  exact ⟨hforward, _, before, unwinding, he, hacts, hbreaks, hunwinds⟩

end Builder

end ConfigGraph
