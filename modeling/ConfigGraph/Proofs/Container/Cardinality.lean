import ConfigGraph.Proofs.Container.Optional

/-!
# How many beans a lookup matches

A lookup for a single bean of a type considers the beans that are of the type or are seen as it, and
that its selector picks (`Profile.Answers`). None and several of them are errors, for which nothing is
done; the only one is wired, and the lookup gives its instance or the error of wiring it
(`Context.Finds`). A lookup with several selectors is such lookups one after the other, up to the first
that fails (`Context.FindsEach`). So it is at any time while beans are refreshed and in the container
that comes of it (`Builder.lookups_find`).
-/

namespace ConfigGraph

open Wiring

/-- A bean is of a type or is seen as it, and a selector picks it. A list of which only the items are of
the type does not answer. -/
def Profile.Answers (p : Profile) (type : TypeId) (sel : Selector) : Prop :=
  (p.type = type ∨ ∃ e ∈ p.exports, e.type = type ∧ e.elements = false) ∧ sel.accepts p = true

instance (p : Profile) (type : TypeId) (sel : Selector) : Decidable (p.Answers type sel) :=
  inferInstanceAs (Decidable ((_ ∨ ∃ e ∈ p.exports, _) ∧ _))

/-- The act with which a lookup goes on that has come to a definition. -/
def Act.answer (i : Nat) : Except ContainerError Instance → Act
  | .ok _ => .receive i
  | .error e => .refuse i e

namespace Context

/-- The definitions whose beans answer a lookup, with their numbers, in the order of registration. -/
def answering (ctx : Context) (type : TypeId) (sel : Selector) : List (Definition × Nat) :=
  ctx.definitions.zipIdx.filter fun e => e.1.bean.profile.Answers type sel

/-- How a lookup for a single bean ends that starts at an assembly `s`: what comes of it, the assembly
then, and all that has been done. -/
inductive Finds (ctx : Context) (wire : Nat → Wiring Instance) (type : TypeId) (sel : Selector)
    (s : Assembly) : Except ContainerError Handle → Assembly → List Act → Prop where
  | none (h : ctx.answering type sel = []) :
      ctx.Finds wire type sel s (.error (.beanNotFound type.name sel)) s []
  | several (h : 2 ≤ (ctx.answering type sel).length) :
      ctx.Finds wire type sel s (.error (.ambiguousBean type sel
        ((ctx.answering type sel).map (·.1.bean.profile.name)))) s []
  /-- The only definition is wired. Its instance is of the type of the bean, so it can be seen as the type
  asked for. -/
  | one {d : Definition} {i : Nat} {inst : Instance} {t : Assembly}
      (h : ctx.answering type sel = [(d, i)]) (hwire : (wire i).run s = (.ok inst, t))
      (hinst : t.instance? i = some inst) (htype : inst.type = d.bean.profile.type) :
      ctx.Finds wire type sel s (.ok (inst.seenAs type)) t
        ([.ask i] ++ (wire i).acts s ++ [.receive i])
  | broken {d : Definition} {i : Nat} {e : ContainerError} {t : Assembly}
      (h : ctx.answering type sel = [(d, i)]) (hwire : (wire i).run s = (.error e, t)) :
      ctx.Finds wire type sel s (.error e) t ([.ask i] ++ (wire i).acts s ++ [.refuse i e])

/-- How lookups for single beans end, one for each selector: each starts where the one before it has
ended, up to the first that fails. -/
inductive FindsEach (ctx : Context) (wire : Nat → Wiring Instance) (type : TypeId) :
    List Selector → Assembly → Except ContainerError (List Handle) → Assembly → List Act → Prop where
  | done (s : Assembly) : ctx.FindsEach wire type [] s (.ok []) s []
  | failed {sel : Selector} {rest : List Selector} {s t : Assembly} {e : ContainerError}
      {acts : List Act} (h : ctx.Finds wire type sel s (.error e) t acts) :
      ctx.FindsEach wire type (sel :: rest) s (.error e) t acts
  | found {sel : Selector} {rest : List Selector} {s s' t : Assembly} {b : Handle}
      {r : Except ContainerError (List Handle)} {acts more : List Act}
      (h : ctx.Finds wire type sel s (.ok b) s' acts)
      (hrest : ctx.FindsEach wire type rest s' r t more) :
      ctx.FindsEach wire type (sel :: rest) s (r.map (b :: ·)) t (acts ++ more)

variable {ctx : Context} {type : TypeId} {sel : Selector} {sels : List Selector} {s t : Assembly}
  {depth i : Nat} {d : Definition} {acts : List Act}

theorem getElem?_of_mem_answering {e : Definition × Nat} (he : e ∈ ctx.answering type sel) :
    ctx.definitions[e.2]? = some e.1 :=
  List.mem_zipIdx_iff_getElem?.1 (List.mem_filter.1 he).1

/-- The definitions that a lookup matches are those whose beans answer it. -/
theorem candidates_eq (hwf : ∀ d ∈ ctx.definitions, d.bean.profile.WellFormed) :
    ctx.candidates type sel = (ctx.answering type sel).map (·.2) := by
  have hnumbers : ctx.indices = ctx.definitions.zipIdx.map (·.2) := by
    rw [indices, List.range_eq_range', List.zipIdx_map_snd]
  rw [candidates, hnumbers, List.filter_map, answering]
  refine congrArg _ (List.filter_congr fun e he => ?_)
  have hd := List.mem_zipIdx_iff_getElem?.1 he
  have hp := hwf e.1 (List.mem_of_getElem? hd)
  rw [Function.comp_apply, profile?, hd, Option.map_some, Option.any_some, Bool.eq_iff_iff,
    Bool.and_eq_true, Profile.export?_isSome_iff, decide_eq_true_iff, Profile.Answers]
  refine and_congr_left fun _ => ⟨.inr, fun h => h.elim (fun htype => ?_) id⟩
  exact ⟨_, hp.own, htype, rfl⟩

theorem names_answering : ctx.names ((ctx.answering type sel).map (·.2)) =
    (ctx.answering type sel).map (·.1.bean.profile.name) := by
  rw [names, List.filterMap_map, ← List.filterMap_eq_map]
  refine List.filterMap_congr fun e he => ?_
  rw [Function.comp_apply, profile?, getElem?_of_mem_answering he]
  rfl

end Context

section

variable {ctx : Context} {s t : Assembly} {i depth : Nat} {inst : Instance} {type : TypeId}
  {sel : Selector} {sels : List Selector}

/-! ## Wiring leaves the instance with its definition -/

/-- What a course that wires a definition gives is the instance of that definition at its end. -/
def GivesInstance (s : Assembly) (i : Nat) (h : List Act) (x : Wiring Instance) : Prop :=
  x.Meets s h fun r h' => ∀ inst, r = .ok inst → (s.after h').instance? i = some inst

theorem givesInstance_fail (e : ContainerError) (h : List Act) : GivesInstance s i h (fail e) :=
  (meets_fail e).2 fun _ hr => by cases hr

theorem givesInstance_finish (hi : i < s.slots.length) (b : Bean) (made : Instance) (h : List Act) :
    GivesInstance s i h (finish i b made) := by
  simp only [GivesInstance, finish, meets_bind, meets_attempt]
  refine .of_forall fun r h' => ?_
  cases r with
  | error e => simp only [meets_bind, meets_once]; exact givesInstance_fail e _
  | ok inst =>
    simp only [meets_bind, meets_once, meets_pure]
    rintro _ ⟨⟩
    rw [Assembly.after_append]
    exact Assembly.instance?_complete (by rwa [Assembly.length_after])

theorem givesInstance_wireNow (hi : i < s.slots.length) (inner : Nat → Wiring Instance) (d : Definition) :
    GivesInstance s i [] (wireNow ctx inner i d) := by
  simp only [GivesInstance, wireNow, meets_bind, meets_once, meets_attempt]
  refine .of_forall fun r h' => ?_
  cases r with
  | error e => simp only [meets_bind, meets_once]; exact givesInstance_fail e _
  | ok made => simp only [meets_bind, meets_once]; exact givesInstance_finish hi d.bean made _

theorem givesInstance_circular (name : String) : GivesInstance s i [] (circular name) := by
  simp only [GivesInstance, circular, meets_bind, meets_current]
  exact givesInstance_fail _ _

theorem givesInstance_wireBy {now : Definition → Wiring Instance}
    (hnow : ∀ d, i < s.slots.length → GivesInstance s i [] (now d)) :
    GivesInstance s i [] (wireBy ctx now i) := by
  rw [GivesInstance, wireBy, meets_bind, meets_current]
  simp only [Assembly.after_nil]
  split
  · rename_i d slot _ hslot
    split
    · rename_i inst hinst
      refine (meets_pure inst).2 ?_
      rintro _ ⟨⟩
      exact Option.bind_eq_some_iff.2 ⟨slot, hslot, hinst⟩
    · split
      · exact hnow d (List.getElem?_eq_some_iff.1 hslot).1
      · exact givesInstance_fail _ _
      · exact givesInstance_circular _
  · exact givesInstance_fail _ _

theorem instance?_of_wire (hw : (wire ctx depth i).run s = (.ok inst, t)) :
    t.instance? i = some inst := by
  have hgives : GivesInstance s i [] (wire ctx depth i) := by
    cases depth with
    | zero => exact givesInstance_wireBy fun d _ => givesInstance_circular _
    | succ depth => exact givesInstance_wireBy fun d hi => givesInstance_wireNow hi _ d
  have hend := run_snd (wire ctx depth i) s
  have hinst := hgives inst (congrArg Prod.fst hw)
  rw [hw] at hend
  rwa [List.nil_append, Assembly.after_nil, ← hend] at hinst

/-! ## One lookup and several -/

theorem fetch_acts {inner : Nat → Wiring Instance} {r : Except ContainerError Instance}
    (hw : (inner i).run s = (r, t)) :
    (fetch inner i).acts s = [.ask i] ++ (inner i).acts s ++ [.answer i r] := by
  rw [fetch, acts_bind, List.append_assoc]
  show [.ask i] ++ ((inner i).attempt >>= _ : Wiring Instance).acts s = _
  rw [acts_bind, acts_attempt, run_attempt, hw]
  cases r <;> rfl

/-- A lookup that matches one definition wires it, and does nothing else. -/
theorem getBean_acts (hc : ctx.candidates type sel = [i]) {r : Except ContainerError Instance}
    (hw : (wire ctx depth i).run s = (r, t)) :
    (getBean ctx (wire ctx depth) type sel).acts s =
      [.ask i] ++ (wire ctx depth i).acts s ++ [.answer i r] := by
  obtain ⟨d, e, -, -, hlocate⟩ := locate_eq hc (wire ctx depth)
  rw [getBean, hlocate, acts_bind, acts_bind, run_bind, fetch_run, hw, fetch_acts hw]
  cases r with
  | error e => simp only [List.append_nil]
  | ok inst => cases hcast : e.cast? d.bean.profile.type inst <;> simp [hcast, acts, run, pure]

theorem getBean_error (hc : ctx.candidates type sel = [i]) {e : ContainerError}
    (hw : (wire ctx depth i).run s = (.error e, t)) :
    (getBean ctx (wire ctx depth) type sel).run s = (.error e, t) := by
  obtain ⟨d, _, -, -, hlocate⟩ := locate_eq hc (wire ctx depth)
  rw [getBean, hlocate, run_bind, run_bind, fetch_run, hw]

/-- A lookup that matches one definition ends as wiring that does. -/
theorem getBean_one {d : Definition} (hctx : ctx.Sound s) (ha : ctx.answering type sel = [(d, i)])
    {r : Except ContainerError Handle}
    (hrun : (getBean ctx (wire ctx depth) type sel).run s = (r, t)) :
    ctx.Finds (wire ctx depth) type sel s r t
      ((getBean ctx (wire ctx depth) type sel).acts s) := by
  have hc : ctx.candidates type sel = [i] := by
    rw [Context.candidates_eq hctx.wellFormed, ha]
    rfl
  have hd : ctx.definitions[i]? = some d :=
    Context.getElem?_of_mem_answering (ha ▸ List.mem_singleton_self (d, i))
  cases hw : (wire ctx depth i).run s with
  | mk wired t' =>
    rw [getBean_acts hc hw]
    cases wired with
    | error e =>
      rw [getBean_error hc hw] at hrun
      cases hrun
      exact .broken ha hw
    | ok inst =>
      rw [getBean_run hctx hc hw] at hrun
      cases hrun
      exact .one ha hw (instance?_of_wire hw) (hctx.typed.type_wire hctx.objects hd hw)

theorem getBean_none (inner : Nat → Wiring Instance) (hc : ctx.candidates type sel = []) :
    getBean ctx inner type sel = fail (notFound type sel) := by
  rw [getBean, locate, hc]
  rfl

theorem getBean_several {j : Nat} {rest : List Nat} (inner : Nat → Wiring Instance)
    (hc : ctx.candidates type sel = i :: j :: rest) :
    getBean ctx inner type sel = fail (.ambiguousBean type sel (ctx.names (i :: j :: rest))) := by
  rw [getBean, locate, hc]
  rfl

/-- A lookup for a single bean ends as the number of the beans that answer it says. -/
theorem getBean_finds (hctx : ctx.Sound s) {r : Except ContainerError Handle}
    (hrun : (getBean ctx (wire ctx depth) type sel).run s = (r, t)) :
    ctx.Finds (wire ctx depth) type sel s r t
      ((getBean ctx (wire ctx depth) type sel).acts s) := by
  have hc : ctx.candidates type sel = (ctx.answering type sel).map (·.2) :=
    Context.candidates_eq hctx.wellFormed
  have hnames : ctx.names ((ctx.answering type sel).map (·.2)) =
      (ctx.answering type sel).map (·.1.bean.profile.name) := Context.names_answering
  rcases ha : ctx.answering type sel with _ | ⟨⟨d, i⟩, _ | ⟨next, rest⟩⟩
  · rw [ha] at hc
    rw [getBean_none _ hc] at hrun ⊢
    cases hrun
    exact .none ha
  · exact getBean_one hctx ha hrun
  · have hambiguous : getBean ctx (wire ctx depth) type sel = fail (.ambiguousBean type sel
        ((ctx.answering type sel).map (·.1.bean.profile.name))) := by
      rw [← hnames, ha]
      rw [ha] at hc
      exact getBean_several _ hc
    rw [hambiguous] at hrun ⊢
    cases hrun
    exact .several (by simp [ha])

theorem Context.Finds.sound {r : Except ContainerError Handle} {acts : List Act}
    (h : ctx.Finds (wire ctx depth) type sel s r t acts) (hctx : ctx.Sound s) : ctx.Sound t := by
  cases h with
  | none | several => exact hctx
  | one _ hwire | broken _ hwire => exact hctx.wire hwire

/-- Lookups with several selectors end as single lookups do, one after the other. -/
theorem getEach_finds (hctx : ctx.Sound s) {r : Except ContainerError (List Handle)}
    (hrun : (getEach ctx (wire ctx depth) type sels).run s = (r, t)) :
    ctx.FindsEach (wire ctx depth) type sels s r t
      ((getEach ctx (wire ctx depth) type sels).acts s) := by
  induction sels generalizing s t r with
  | nil =>
    cases hrun
    exact .done _
  | cons sel rest ih =>
    cases hfirst : (getBean ctx (wire ctx depth) type sel).run s with
    | mk found s' =>
      have hfinds := getBean_finds hctx hfirst
      rw [getEach, run_bind, hfirst] at hrun
      rw [getEach, acts_bind, hfirst]
      cases found with
      | error e =>
        cases hrun
        simp only [List.append_nil]
        exact .failed hfinds
      | ok b =>
        cases hothers : (getEach ctx (wire ctx depth) type rest).run s' with
        | mk others t' =>
          have hrest := ih (hfinds.sound hctx) hothers
          dsimp only at hrun ⊢
          rw [run_bind, hothers] at hrun
          rw [acts_bind, hothers]
          cases others with
          | error e =>
            cases hrun
            simp only [List.append_nil]
            exact .found hfinds hrest
          | ok bs =>
            cases hrun
            show ctx.FindsEach _ type _ s _ _ (_ ++ (_ ++ []))
            rw [List.append_nil]
            exact .found hfinds hrest

end

namespace Builder

/-- While beans are refreshed and in the container that comes of it, a lookup for a single bean of a
type considers the beans that answer it, in the order of registration. It does nothing at all if there
are none or several of them, and else gives the instance of the only one or the error of wiring it. A
lookup with selectors is one such lookup for each of them, up to the first that fails. -/
theorem lookups_find {store : Store} {beans : List Bean} {ctx : Context} {s : Assembly}
    (hs : (registered store beans).Stage ctx s) (hwf : ∀ bean ∈ beans, bean.profile.WellFormed)
    (depth : Nat) (type : TypeId) :
    ctx.definitions.map (·.bean) = beans ∧
    (∀ sel r t, (getBean ctx (wire ctx depth) type sel).run s = (r, t) →
      ctx.Finds (wire ctx depth) type sel s r t
        ((getBean ctx (wire ctx depth) type sel).acts s)) ∧
    ∀ sels r t, sels ≠ [] → (collectBeans ctx (wire ctx depth) type sels).run s = (r, t) →
      ctx.FindsEach (wire ctx depth) type sels s r t
        ((collectBeans ctx (wire ctx depth) type sels).acts s) := by
  have hctx := hs.sound hwf
  refine ⟨hs.definitions ▸ map_bean_registered store beans, fun sel r t => getBean_finds hctx,
    fun sels r t hne hrun => ?_⟩
  have hcollect : collectBeans ctx (wire ctx depth) type sels =
      getEach ctx (wire ctx depth) type sels := if_neg (by simpa using hne)
  rw [hcollect] at hrun ⊢
  exact getEach_finds hctx hrun

/-- The list of singers is wired for none of the lookups, as it is no singer itself. -/
theorem lookups_find_choir :
    (∀ bean ∈ choir, bean.profile.WellFormed) ∧
    ∃ ctx s t acts, (registered .empty choir).Stage ctx s ∧
      ctx.FindsEach (wire ctx 2) singer [.inferred, .named "singers"] s
        (.error (.beanNotFound singer.name (.named "singers"))) t acts ∧ t.ready = [1] := by
  have hrun : (collectBeans (registered .empty choir).context
      (wire (registered .empty choir).context 2) singer [.inferred, .named "singers"]).run
        ((registered .empty choir).reached []) =
      (.error (.beanNotFound singer.name (.named "singers")), _) := rfl
  exact ⟨wellFormed_choir, _, _, _, _, stage_choir,
    (lookups_find stage_choir wellFormed_choir 2 singer).2.2 _ _ _ (by simp) hrun, rfl⟩

end Builder

end ConfigGraph
