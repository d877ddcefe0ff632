import ConfigGraph.Proofs.Container.Collect

/-!
# Optional parameters

Before an optional parameter is supplied it is decided from the definitions alone whether there is
something for it (`Context.available_iff`); the lookup itself then wires what it matches
(`getBean_run`, `getEach_run`, `collectBeans_run`). The two agree for lookups with selectors. For
all beans of a type they do but for lists without items, which count as available and yet give
nothing (`Builder.supply_option`, `Builder.supply_option_ne`).
-/

namespace ConfigGraph

open Wiring

/-- What is looked up for a parameter for beans, from what is given for it: beans of a type, one for
each selector, or all of them when there are no selectors. -/
def Param.selectors? : Param → Option Argument → Option (TypeId × List Selector)
  | .bean type, none => some (type, [.inferred])
  | .bean type, some (.bean sel) => some (type, [sel])
  | .collect type, none => some (type, [])
  | .collect type, some (.bean sel) => some (type, [sel])
  | .collect type, some (.collect sels) => some (type, sels)
  | _, _ => none

/-- The beans that a parameter for beans has been given. -/
def Supplied.handles : Supplied → List Handle
  | .bean h => [h]
  | .beans hs => hs
  | _ => []

namespace Context

/-- The definitions that a lookup of beans of a type matches, in the order in which it gives them.
-/
def matched (ctx : Context) (type : TypeId) (sels : List Selector) : List Nat :=
  if sels.isEmpty then ctx.providers type else sels.flatMap (ctx.candidates type)

/-- A lookup of beans of a type matches nothing, or for one of its selectors nothing. -/
def Lacks (ctx : Context) (type : TypeId) (sels : List Selector) : Prop :=
  (sels = [] ∧ ctx.providers type = []) ∨ ∃ sel ∈ sels, ctx.candidates type sel = []

/-- What a lookup of beans of a type gives of the instances of the definitions that it matches. -/
def found (ctx : Context) (type : TypeId) (sels : List Selector) (insts : List Instance) :
    List Handle :=
  if sels.isEmpty then ctx.shown type insts else insts.map (·.seenAs type)

variable {ctx : Context} {type : TypeId} {sel : Selector} {sels : List Selector}
  {arg : Option Argument} {p : Param}

theorem provides_iff : ctx.provides type sel ↔ ctx.candidates type sel ≠ [] := by
  simp [provides]

theorem providesAny_iff : ctx.providesAny type ↔ ctx.providers type ≠ [] := by
  rw [providesAny, List.any_eq_true, providers, Ne, List.filter_eq_nil_iff, not_forall]
  constructor
  · rintro ⟨d, hd, hexports⟩
    obtain ⟨i, hi, rfl⟩ := List.getElem_of_mem hd
    refine ⟨i, fun h => h (List.mem_range.2 hi) ?_⟩
    rw [exportsAt, profile?, List.getElem?_eq_getElem hi]
    exact hexports
  · rintro ⟨i, hi⟩
    obtain ⟨-, hexports⟩ := Classical.not_imp.1 hi
    obtain ⟨q, hq, hexports⟩ := (Option.any_eq_true _ _).1 (not_not.1 hexports)
    obtain ⟨d, hd, rfl⟩ := Option.map_eq_some_iff.1 hq
    exact ⟨d, List.mem_of_getElem? hd, hexports⟩

/-- Something is available for a parameter for beans exactly if its lookup does not lack anything.
-/
theorem available_iff (hp : p.selectors? arg = some (type, sels)) :
    ctx.available arg p ↔ ¬ ctx.Lacks type sels := by
  have hone : ∀ sel, ctx.provides type sel ↔ ¬ ctx.Lacks type [sel] := fun sel => by
    simp [provides_iff, Lacks]
  have hany : ctx.providesAny type ↔ ¬ ctx.Lacks type [] := by
    simp [providesAny_iff, Lacks]
  cases p with
  | bean _ =>
    rcases arg with _ | a
    · cases hp
      exact hone _
    · cases a <;> cases hp
      exact hone _
  | collect _ =>
    rcases arg with _ | _ | sels | _ <;> cases hp
    · exact hany
    · exact hone _
    · cases sels with
      | nil => exact hany
      | cons sel rest =>
        show (sel :: rest).all (ctx.provides type) ↔ _
        simp [provides_iff, Lacks]
  | _ => cases hp

end Context

section

variable {ctx : Context} {s t : Assembly} {i depth : Nat} {inst : Instance} {insts : List Instance}
  {type : TypeId} {sel : Selector} {sels : List Selector}

/-- A lookup that matches one definition is given its instance, and sees that by an export for the type.
-/
theorem locate_eq (hc : ctx.candidates type sel = [i]) (wire : Nat → Wiring Instance) :
    ∃ d e, ctx.definitions[i]? = some d ∧ e.type = type ∧ locate ctx wire type sel =
      fetch wire i >>= fun inst => pure (e, d.bean.profile.type, inst) := by
  obtain ⟨d, e, hd, htype, hp⟩ := Context.mem_candidates (hc ▸ List.mem_singleton_self i)
  exact ⟨d, e, hd, htype, by simp only [locate, hc, hp]⟩

theorem getBean_run (hctx : ctx.Sound s) (hc : ctx.candidates type sel = [i])
    (hw : (wire ctx depth i).run s = (.ok inst, t)) :
    (getBean ctx (wire ctx depth) type sel).run s = (.ok (inst.seenAs type), t) := by
  obtain ⟨d, e, hd, htype, hlocate⟩ := locate_eq hc (wire ctx depth)
  have hinst := hctx.typed.type_wire hctx.objects hd hw
  have hrun : (locate ctx (wire ctx depth) type sel).run s =
      (.ok (e, d.bean.profile.type, inst), t) := by
    rw [hlocate, run_bind, fetch_run, hw]
    rfl
  rw [getBean, run_bind, hrun]
  simp only [Export.cast?, if_pos hinst, htype]
  rfl

/-- A lookup with selectors that match one definition each gives one bean for each of them. -/
theorem getEach_run (hctx : ctx.Sound s) (hone : ∀ sel ∈ sels, ∃ i, ctx.candidates type sel = [i])
    (hw : (wireAll (wire ctx depth) (sels.flatMap (ctx.candidates type))).run s = (.ok insts, t)) :
    (getEach ctx (wire ctx depth) type sels).run s = (.ok (insts.map (·.seenAs type)), t) := by
  induction sels generalizing s insts with
  | nil =>
    cases hw
    rfl
  | cons sel rest ih =>
    obtain ⟨⟨i, hi⟩, hrest⟩ := List.forall_mem_cons.1 hone
    rw [List.flatMap_cons, hi] at hw
    obtain ⟨inst, s', others, hwire, hothers, rfl⟩ := wireAll_cons.1 hw
    rw [getEach, run_bind, getBean_run hctx hi hwire]
    dsimp only
    rw [run_bind, ih (hctx.wire hwire) hrest hothers]
    rfl

variable {index : Nat} {arg : Option Argument} {p : Param}

theorem supply_selectors (ctx : Context) (wire : Nat → Wiring Instance) (index : Nat)
    (hp : p.selectors? arg = some (type, sels)) :
    (∃ sel, sels = [sel] ∧ supply ctx wire index arg p = .bean <$> getBean ctx wire type sel) ∨
      supply ctx wire index arg p = .beans <$> collectBeans ctx wire type sels := by
  cases p with
  | bean _ => rcases arg with _ | _ | _ | _ <;> cases hp <;> exact .inl ⟨_, rfl, rfl⟩
  | collect _ => rcases arg with _ | _ | _ | _ <;> cases hp <;> exact .inr rfl
  | _ => cases hp

/-- A lookup for which all selectors match one definition gives one bean for each of them. -/
theorem supply_each (index : Nat) (hctx : ctx.Sound s) (hp : p.selectors? arg = some (type, sels))
    (hsels : sels ≠ []) (hone : ∀ sel ∈ sels, ∃ i, ctx.candidates type sel = [i])
    (hw : (wireAll (wire ctx depth) (sels.flatMap (ctx.candidates type))).run s = (.ok insts, t)) :
    ∃ x, (supply ctx (wire ctx depth) index arg p).run s = (.ok x, t) ∧
      x.handles = insts.map (·.seenAs type) := by
  rcases supply_selectors ctx (wire ctx depth) index hp with ⟨sel, rfl, hsupply⟩ | hsupply
  · obtain ⟨i, hi⟩ := hone sel (List.mem_singleton_self sel)
    rw [List.flatMap_singleton, hi] at hw
    obtain ⟨inst, s', others, hwire, hothers, rfl⟩ := wireAll_cons.1 hw
    cases hothers
    refine ⟨.bean (inst.seenAs type), ?_, rfl⟩
    rw [hsupply, run_map, getBean_run hctx hi hwire]
    rfl
  · refine ⟨.beans (insts.map (·.seenAs type)), ?_, rfl⟩
    rw [hsupply, run_map, collectBeans, if_neg (by simpa using hsels), getEach_run hctx hone hw]
    rfl

/-- A lookup without selectors gives what all beans of the type show, and fails if that is nothing.
-/
theorem supply_all (index : Nat) (hctx : ctx.Sound s) (hp : p.selectors? arg = some (type, []))
    (hw : (wireAll (wire ctx depth) (ctx.providers type)).run s = (.ok insts, t)) :
    (supply ctx (wire ctx depth) index arg p).run s =
      (if (ctx.shown type insts).isEmpty then .error (notFound type .inferred)
        else .ok (.beans (ctx.shown type insts)), t) := by
  rcases supply_selectors ctx (wire ctx depth) index hp with ⟨sel, hsel, -⟩ | hsupply
  · cases hsel
  · rw [hsupply, run_map, collectBeans_run hctx hw]
    cases (ctx.shown type insts).isEmpty <;> rfl

theorem supply_of_lacks (wire : Nat → Wiring Instance) (hp : p.selectors? arg = some (type, sels))
    (hlacks : ctx.Lacks type sels) :
    (supply ctx wire index arg (.option p)).run s = (.ok .absent, s) := by
  rw [supply, if_neg fun h => (Context.available_iff hp).1 h hlacks]
  rfl

theorem supply_of_not_lacks (wire : Nat → Wiring Instance)
    (hp : p.selectors? arg = some (type, sels)) (hlacks : ¬ ctx.Lacks type sels) :
    (supply ctx wire index arg (.option p)).run s =
      (((supply ctx wire index arg p).run s).1.map .present,
        ((supply ctx wire index arg p).run s).2) := by
  rw [supply, if_pos ((Context.available_iff hp).2 hlacks), run_map]

end

namespace Builder

/-- While beans are refreshed and in the container that comes of it, an optional parameter for beans
is absent exactly if its lookup lacks something; otherwise it is present, provided that what the
lookup matches can be wired, no selector matches several beans, and these give anything. Where they
give nothing, which only lists without items do, supplying the parameter fails. -/
theorem supply_option {store : Store} {beans : List Bean} {ctx : Context} {s t : Assembly}
    (hs : (registered store beans).Stage ctx s)
    (hwf : ∀ bean ∈ beans, bean.profile.WellFormed) {p : Param} {arg : Option Argument}
    {type : TypeId} {sels : List Selector} (hp : p.selectors? arg = some (type, sels))
    (hone : ∀ sel ∈ sels, (ctx.candidates type sel).length ≤ 1) {depth : Nat}
    {insts : List Instance}
    (hw : (wireAll (wire ctx depth) (ctx.matched type sels)).run s = (.ok insts, t)) (index : Nat) :
    (ctx.Lacks type sels →
      (supply ctx (wire ctx depth) index arg (.option p)).run s = (.ok .absent, s)) ∧
    (¬ ctx.Lacks type sels → ctx.found type sels insts ≠ [] → ∃ x,
      (supply ctx (wire ctx depth) index arg (.option p)).run s = (.ok (.present x), t) ∧
        x.handles = ctx.found type sels insts) ∧
    (¬ ctx.Lacks type sels → ctx.found type sels insts = [] →
      sels = [] ∧ (supply ctx (wire ctx depth) index arg (.option p)).run s =
        (.error (notFound type .inferred), t)) := by
  have hctx := hs.sound hwf
  refine ⟨fun hlacks => supply_of_lacks _ hp hlacks, ?_⟩
  cases sels with
  | nil =>
    have hrun := supply_all index hctx hp hw
    refine ⟨fun hlacks hfound => ?_, fun hlacks hfound => ⟨rfl, ?_⟩⟩
    · rw [supply_of_not_lacks _ hp hlacks, hrun, if_neg (by simpa [Context.found] using hfound)]
      exact ⟨_, rfl, rfl⟩
    · rw [supply_of_not_lacks _ hp hlacks, hrun, if_pos (by simpa [Context.found] using hfound)]
      rfl
  | cons sel rest =>
    have hsingle : ¬ ctx.Lacks type (sel :: rest) →
        ∀ sel' ∈ sel :: rest, ∃ i, ctx.candidates type sel' = [i] := by
      intro hlacks sel' hsel'
      refine List.length_eq_one_iff.1 (Nat.le_antisymm (hone sel' hsel') ?_)
      exact List.length_pos_of_ne_nil fun hnone => hlacks (.inr ⟨sel', hsel', hnone⟩)
    refine ⟨fun hlacks _ => ?_, fun hlacks hfound => ?_⟩
    · obtain ⟨x, hrun, hx⟩ := supply_each index hctx hp (by simp) (hsingle hlacks) hw
      rw [supply_of_not_lacks _ hp hlacks, hrun]
      exact ⟨x, rfl, hx⟩
    · -- the first selector matches a definition, whose instance is found
      obtain ⟨i, hi⟩ := hsingle hlacks sel List.mem_cons_self
      rw [show ctx.matched type (sel :: rest) = i :: rest.flatMap (ctx.candidates type) by
        simp [Context.matched, hi]] at hw
      obtain ⟨inst, -, others, -, -, rfl⟩ := wireAll_cons.1 hw
      cases hfound

theorem supply_option_choir :
    (∀ bean ∈ choir, bean.profile.WellFormed) ∧
    ∃ ctx s t x, (registered .empty choir).Stage ctx s ∧ ¬ ctx.Lacks singer [.inferred] ∧
      (supply ctx (wire ctx 2) 0 none (.option (.bean singer))).run s = (.ok (.present x), t) ∧
      x.handles = [(soloist.instantiate 1 []).seenAs singer] := by
  have hmatched : (registered .empty choir).context.candidates singer .inferred = [1] := by decide
  have hlacks : ¬ (registered .empty choir).context.Lacks singer [.inferred] := by
    simp [Context.Lacks, hmatched]
  have hw : (wireAll (wire (registered .empty choir).context 2)
      ((registered .empty choir).context.matched singer [.inferred])).run
        ((registered .empty choir).reached []) = (.ok [soloist.instantiate 1 []], _) := rfl
  have hp : (Param.bean singer).selectors? none = some (singer, [.inferred]) := rfl
  have hrun := supply_option stage_choir wellFormed_choir hp (by simp [hmatched]) hw 0
  obtain ⟨x, hx, hhandles⟩ := hrun.2.1 hlacks (by simp [Context.found])
  exact ⟨wellFormed_choir, _, _, _, x, stage_choir, hlacks, hx, hhandles⟩

/-- A list without items. -/
def emptyChoir : List Bean :=
  [(singers []).group rfl]

/-- For a list without items a lookup of all beans lacks nothing, and fails even so. -/
theorem supply_option_ne :
    (∀ bean ∈ emptyChoir, bean.profile.WellFormed) ∧
    ∃ c events insts, (registered .empty emptyChoir).refresh = (.ok c, events) ∧
      (wireAll (wire c.context 1) (c.context.matched singer [])).run c.assembly =
        (.ok insts, c.assembly) ∧
      (supply c.context (wire c.context 1) 0 none (.option (.collect singer))).run c.assembly =
        (.error (notFound singer .inferred), c.assembly) := by
  have hwf : ∀ bean ∈ emptyChoir, bean.profile.WellFormed :=
    List.forall_mem_singleton.2 ((described_singers []).group rfl).wellFormed
  exact ⟨hwf, (registered .empty emptyChoir).finished, _, _, rfl, rfl, rfl⟩

end Builder

end ConfigGraph
