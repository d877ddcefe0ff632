import ConfigGraph.Proofs.Container.Typed

/-!
# Collecting all beans of a type

A bean is exported as its own type, and only a list exports items, whatever a program does to
describe it (`Bean.Described.wellFormed`). It provides itself and, where it exports its items, these
too (`Profile.offers`). A lookup of all beans of a type goes through the definitions that export it,
in order, and takes what the first export of each of them shows (`gather_run`). That is all that the
bean provides, unless it exports the type in both ways (`Profile.shown_eq_offers`), so collecting is
complete (`Builder.collect_complete`) but for such beans (`Builder.collect_complete_ne`).
-/

namespace ConfigGraph

open Wiring

namespace Profile

/-- The exports that a bean has: one for its own type, and for items only where it is a list of
these. -/
structure WellFormed (p : Profile) : Prop where
  own : ⟨p.type, false⟩ ∈ p.exports
  items : ∀ e ∈ p.exports, e.elements = true → p.type = .list e.type

/-- What an instance of a bean provides of a type: itself, when it is of the type or is seen as it,
and then its items, when they are exported as it. -/
def offers (p : Profile) (type : TypeId) (inst : Instance) : List Handle :=
  (if p.type = type ∨ (p.export? type false).isSome then [inst.seenAs type] else []) ++
    if (p.export? type true).isSome then inst.items else []

/-- A bean exports a type for itself and for its items too. -/
def Twofold (p : Profile) (type : TypeId) : Prop :=
  (p.export? type false).isSome ∧ (p.export? type true).isSome

/-- What the first export for a type shows of an instance. -/
def shown (p : Profile) (type : TypeId) (inst : Instance) : List Handle :=
  match p.exports.find? (·.type == type) with
  | some e => if e.elements then inst.items else [inst.seenAs type]
  | none => []

variable {p : Profile} {type : TypeId} {e : Export}

theorem export?_isSome_iff {elements : Bool} :
    (p.export? type elements).isSome ↔ ∃ e ∈ p.exports, e.type = type ∧ e.elements = elements := by
  simp [export?, List.find?_isSome]

/-- A bean that exports a type for itself or for its items, and not for both, shows what it
provides. -/
theorem shown_eq_offers (hp : p.WellFormed) (hone : ¬ p.Twofold type) (inst : Instance) :
    p.shown type inst = p.offers type inst := by
  have hown : p.type = type → (p.export? type false).isSome :=
    fun h => export?_isSome_iff.2 ⟨_, hp.own, h, rfl⟩
  unfold shown offers
  cases hfind : p.exports.find? (·.type == type) with
  | none =>
    have hnone : ∀ elements, ¬ (p.export? type elements).isSome := fun elements h => by
      obtain ⟨e, he, htype, -⟩ := export?_isSome_iff.1 h
      exact List.find?_eq_none.1 hfind e he (by simp [htype])
    have hneither : ¬ (p.type = type ∨ (p.export? type false).isSome) :=
      fun h => hnone false (h.elim hown id)
    simp only [if_neg (hnone true), if_neg hneither, List.append_nil]
  | some e =>
    have he := List.mem_of_find?_eq_some hfind
    have htype : e.type = type := by simpa using List.find?_some hfind
    cases helements : e.elements with
    | true =>
      have htrue := export?_isSome_iff.2 ⟨e, he, htype, helements⟩
      have hfalse : ¬ (p.export? type false).isSome := fun h => hone ⟨h, htrue⟩
      have hneither : ¬ (p.type = type ∨ (p.export? type false).isSome) :=
        fun h => hfalse (h.elim hown id)
      simp only [helements, if_true, if_pos htrue, if_neg hneither, List.nil_append]
    | false =>
      have hfalse := export?_isSome_iff.2 ⟨e, he, htype, helements⟩
      have htrue : ¬ (p.export? type true).isSome := fun h => hone ⟨hfalse, h⟩
      have hitself : p.type = type ∨ (p.export? type false).isSome := .inr hfalse
      simp only [helements, Bool.false_eq_true, if_false, if_neg htrue, if_pos hitself,
        List.append_nil]

end Profile

namespace Bean

/-- A bean as a program describes it: of a type and a maker, with what is added to it one by one. -/
inductive Described : Bean → Prop
  | ofMaker (type : TypeId) (maker : Maker) (label : String) (elements : List String)
      (shape : List (Field Shape)) : Described (.ofMaker type maker label elements shape)
  | named {b : Bean} (h : Described b) (name : String) : Described (b.named name)
  | withArgs {b : Bean} (h : Described b) (args : List Argument) : Described (b.withArgs args)
  | inject {b : Bean} (h : Described b) (i : Injector) : Described (b.inject i)
  | withInit {b : Bean} (h : Described b) (init : Init) : Described (b.withInit init)
  | link {b : Bean} (h : Described b) (c : Callback) : Described (b.link c)
  | destroyed {b : Bean} (h : Described b) : Described b.destroyed
  | exportAs {b : Bean} (h : Described b) (type : TypeId) : Described (b.exportAs type)
  | group {b : Bean} (h : Described b) {item : TypeId} (hitem : b.profile.type = .list item) :
      Described (b.group hitem)

variable {b : Bean}

theorem wellFormed_ofMaker (type : TypeId) (maker : Maker) (label : String) (elements : List String)
    (shape : List (Field Shape)) :
    (ofMaker type maker label elements shape).profile.WellFormed where
  own := List.mem_singleton_self _
  items := List.forall_mem_singleton.2 fun h => absurd h Bool.false_ne_true

theorem wellFormed_exportAs (h : b.profile.WellFormed) (type : TypeId) :
    (b.exportAs type).profile.WellFormed where
  own := List.mem_append_left _ h.own
  items := List.forall_mem_append.2
    ⟨h.items, List.forall_mem_singleton.2 fun he => absurd he Bool.false_ne_true⟩

theorem wellFormed_group (h : b.profile.WellFormed) {item : TypeId}
    (hitem : b.profile.type = .list item) : (b.group hitem).profile.WellFormed where
  own := List.mem_append_left _ h.own
  items := List.forall_mem_append.2 ⟨h.items, List.forall_mem_singleton.2 fun _ => hitem⟩

/-- Every bean that a program describes is well formed. -/
theorem Described.wellFormed (h : b.Described) : b.profile.WellFormed := by
  induction h with
  | ofMaker type maker label elements shape => exact wellFormed_ofMaker ..
  | named _ name ih => exact ⟨ih.own, ih.items⟩
  | exportAs _ type ih => exact wellFormed_exportAs ih type
  | group _ hitem ih => exact wellFormed_group ih hitem
  | withArgs _ _ ih | inject _ _ ih | withInit _ _ ih | link _ _ ih | destroyed _ ih => exact ih

end Bean

/-- Wires the definitions with some numbers, in order. -/
def wireAll (inner : Nat → Wiring Instance) : List Nat → Wiring (List Instance)
  | [] => return []
  | i :: rest => do
    let inst ← inner i
    return inst :: (← wireAll inner rest)

namespace Context

/-- Whether a definition exports a type, for itself or for its items. -/
def exportsAt (ctx : Context) (type : TypeId) (i : Nat) : Bool :=
  (ctx.profile? i).any (Lookup.every type).matches

/-- The definitions that export a type, in the order of registration. -/
def providers (ctx : Context) (type : TypeId) : List Nat :=
  ctx.indices.filter (ctx.exportsAt type)

/-- What some definitions give with these instances, one after the other. -/
def together (ctx : Context) (give : Profile → Instance → List Handle) (is : List Nat)
    (insts : List Instance) : List Handle :=
  (is.zip insts).flatMap fun e => (ctx.profile? e.1).elim [] (give · e.2)

/-- What the instances of all definitions that export a type show by their first export for it. -/
def shown (ctx : Context) (type : TypeId) (insts : List Instance) : List Handle :=
  ctx.together (·.shown type) (ctx.providers type) insts

/-- What the instances of all definitions that export a type provide of it. -/
def offered (ctx : Context) (type : TypeId) (insts : List Instance) : List Handle :=
  ctx.together (·.offers type) (ctx.providers type) insts

theorem together_congr {ctx : Context} {give give' : Profile → Instance → List Handle}
    (hgive : ∀ d ∈ ctx.definitions, ∀ inst, give d.bean.profile inst = give' d.bean.profile inst)
    (is : List Nat) (insts : List Instance) :
    ctx.together give is insts = ctx.together give' is insts := by
  refine List.flatMap_congr fun e _ => ?_
  cases hd : ctx.definitions[e.1]? with
  | none => rw [profile?, hd]; rfl
  | some d =>
    rw [profile?, hd]
    exact hgive d (List.mem_of_getElem? hd) e.2

/-- The beans are well formed, and their instances are of their types: those there are, and the
objects that others will be made of. -/
structure Sound (ctx : Context) (s : Assembly) : Prop where
  wellFormed : ∀ d ∈ ctx.definitions, d.bean.profile.WellFormed
  objects : ctx.ObjectsTyped
  typed : ctx.Typed s

/-- Wiring a definition leaves everything sound. -/
theorem Sound.wire {ctx : Context} {s t : Assembly} (hctx : ctx.Sound s) {depth i : Nat}
    {r : Except ContainerError Instance} (hw : (wire ctx depth i).run s = (r, t)) :
    ctx.Sound t where
  wellFormed := hctx.wellFormed
  objects := hctx.objects
  typed := by
    have := hctx.typed.run (alike_wire_fitting hctx.objects s depth i)
    rwa [hw] at this

end Context

section

variable {ctx : Context} {inner : Nat → Wiring Instance} {s t : Assembly} {i : Nat} {is : List Nat}
  {insts : List Instance} {type : TypeId} {depth : Nat}

/-- The marks of a lookup change nothing. -/
theorem fetch_run (inner : Nat → Wiring Instance) (i : Nat) (s : Assembly) :
    (fetch inner i).run s = (inner i).run s := by
  unfold fetch
  rw [run_bind]
  show ((inner i).attempt >>= _ : Wiring Instance).run s = _
  rw [run_bind, run_attempt]
  generalize (inner i).run s = ran
  obtain ⟨e | inst, t⟩ := ran <;> rfl

theorem wireAll_cons : (wireAll inner (i :: is)).run s = (.ok insts, t) ↔
    ∃ inst s' rest, (inner i).run s = (.ok inst, s') ∧ (wireAll inner is).run s' = (.ok rest, t) ∧
      inst :: rest = insts := by
  constructor
  · intro h
    obtain ⟨inst, s', hi, h⟩ := run_bind_ok h
    obtain ⟨rest, t', hrest, h⟩ := run_bind_ok h
    cases h
    exact ⟨inst, s', rest, hi, hrest, rfl⟩
  · rintro ⟨inst, s', rest, hi, hrest, rfl⟩
    rw [wireAll, run_bind, hi]
    dsimp only
    rw [run_bind, hrest]
    rfl

/-- The first export for a type shows what it shows, whatever the instance is that has the type of
the bean. -/
theorem Profile.shown_of_find {p : Profile} {e : Export} {inst : Instance} (hp : p.WellFormed)
    (he : p.exports.find? (·.type == type) = some e) (hinst : inst.type = p.type) :
    (if e.elements then (e.castItems? p.type inst).getD [] else (e.cast? p.type inst).toList) =
      p.shown type inst := by
  have htype : e.type = type := by simpa using List.find?_some he
  rw [shown, he]
  dsimp only
  cases helements : e.elements with
  | true =>
    have hlist := hp.items e (List.mem_of_find?_eq_some he) helements
    rw [if_pos rfl, if_pos rfl, Export.castItems?, if_pos ⟨hinst, hlist⟩, Option.getD_some]
  | false =>
    rw [if_neg Bool.false_ne_true, if_neg Bool.false_ne_true, Export.cast?, if_pos hinst, htype]
    rfl

/-- A lookup of all beans among some definitions takes what those of them show that export the
type. -/
theorem gather_run (hctx : ctx.Sound s)
    (his : ∀ i ∈ is, i < ctx.definitions.length)
    (hw : (wireAll (wire ctx depth) (is.filter (ctx.exportsAt type))).run s = (.ok insts, t)) :
    (gather ctx (wire ctx depth) type is).run s =
      (.ok (ctx.together (·.shown type) (is.filter (ctx.exportsAt type)) insts), t) := by
  induction is generalizing s insts with
  | nil =>
    cases hw
    rfl
  | cons i rest ih =>
    obtain ⟨hi, hrest⟩ := List.forall_mem_cons.1 his
    obtain ⟨d, hd⟩ : ∃ d, ctx.definitions[i]? = some d := ⟨_, List.getElem?_eq_getElem hi⟩
    have hp : ctx.profile? i = some d.bean.profile := by rw [Context.profile?, hd, Option.map_some]
    have hexports : ctx.exportsAt type i = d.bean.profile.exports.any (·.type == type) := by
      rw [Context.exportsAt, hp, Option.any_some, Lookup.matches]
    rw [gather, hp, Option.bind_some]
    cases hfind : d.bean.profile.exports.find? (·.type == type) with
    | none =>
      have hnone : ctx.exportsAt type i = false := by
        rw [hexports, List.any_eq_false]
        exact List.find?_eq_none.1 hfind
      rw [List.filter_cons_of_neg (by rw [hnone]; exact Bool.false_ne_true)] at hw ⊢
      exact ih hctx hrest hw
    | some e =>
      have hsome : ctx.exportsAt type i = true := by
        rw [hexports, List.any_eq_true]
        exact ⟨e, List.mem_of_find?_eq_some hfind, by simpa using List.find?_some hfind⟩
      rw [List.filter_cons_of_pos hsome] at hw ⊢
      obtain ⟨inst, s', others, hwire, hothers, rfl⟩ := wireAll_cons.1 hw
      have hinst := hctx.typed.type_wire hctx.objects hd hwire
      dsimp only [Option.map_some]
      rw [run_bind, fetch_run, hwire]
      dsimp only
      rw [run_bind, ih (hctx.wire hwire) hrest hothers]
      dsimp only
      have hwf := hctx.wellFormed d (List.mem_of_getElem? hd)
      rw [Profile.shown_of_find hwf hfind hinst, Context.together, Context.together,
        List.zip_cons_cons, List.flatMap_cons, hp]
      rfl

/-- A lookup of all beans of a type gives what the beans show that export it, or fails when these
show nothing. -/
theorem collectBeans_run (hctx : ctx.Sound s)
    (hw : (wireAll (wire ctx depth) (ctx.providers type)).run s = (.ok insts, t)) :
    (collectBeans ctx (wire ctx depth) type []).run s =
      (if (ctx.shown type insts).isEmpty then .error (notFound type .inferred)
        else .ok (ctx.shown type insts), t) := by
  have his : ∀ i ∈ ctx.indices, i < ctx.definitions.length := fun i => List.mem_range.1
  rw [collectBeans, if_pos List.isEmpty_nil, run_bind, gather_run hctx his hw]
  show (if (ctx.shown type insts).isEmpty then _ else _ : Wiring _).run t = _
  cases (ctx.shown type insts).isEmpty <;> rfl

end

namespace Builder

section

variable {store : Store} {beans : List Bean} {type : TypeId} {ctx : Context} {s t : Assembly}
  {depth : Nat} {insts : List Instance} (hs : (registered store beans).Stage ctx s)

include hs

theorem Stage.bean_mem {d : Definition} (hd : d ∈ ctx.definitions) : d.bean ∈ beans := by
  rw [← map_bean_registered store beans, ← hs.definitions]
  exact List.mem_map_of_mem hd

theorem Stage.sound (hwf : ∀ bean ∈ beans, bean.profile.WellFormed) : ctx.Sound s := by
  have hobjects : (registered store beans).context.ObjectsTyped :=
    fun d hd inst hinst => (object_registered store beans d hd inst hinst).2
  refine ⟨fun d hd => hwf d.bean (hs.bean_mem hd), fun d hd => ?_, hs.typed hobjects⟩
  rw [hs.definitions] at hd
  exact hobjects d hd

/-- While beans are refreshed and in the container that comes of it, a lookup of all beans of a type
gives all that the beans provide of it, in the order of registration, provided that they can be
wired and that none exports the type for itself and for its items too. It fails exactly when they
provide nothing. -/
theorem collect_complete (hwf : ∀ bean ∈ beans, bean.profile.WellFormed)
    (hone : ∀ bean ∈ beans, ¬ bean.profile.Twofold type)
    (hw : (wireAll (wire ctx depth) (ctx.providers type)).run s = (.ok insts, t)) :
    (collectBeans ctx (wire ctx depth) type []).run s =
      (if (ctx.offered type insts).isEmpty then .error (notFound type .inferred)
        else .ok (ctx.offered type insts), t) := by
  have hshown : ctx.shown type insts = ctx.offered type insts :=
    Context.together_congr (fun d hd inst => Profile.shown_eq_offers (hwf _ (hs.bean_mem hd))
      (hone _ (hs.bean_mem hd)) inst) _ _
  rw [collectBeans_run (hs.sound hwf) hw, hshown]

end

/-- What the beans of the examples are collected as. -/
def singer : TypeId := .view "app::Singer"

/-- A list of singers. -/
def singers (names : List String) : Bean :=
  ((Bean.ofMaker (.list singer) .object "" names []).named "singers").destroyed

/-- A bean that is seen as a singer. -/
def soloist : Bean :=
  (Bean.ofMaker (.concrete "soloist") (.constructor [] none) "" [] []).destroyed.exportAs singer

/-- A list that exports its items, and a bean that is seen as what they are. -/
def choir : List Bean :=
  [(singers ["alto"]).group rfl, soloist]

theorem described_singers (names : List String) : (singers names).Described :=
  .destroyed (.named (.ofMaker ..) "singers")

theorem wellFormed_choir : ∀ bean ∈ choir, bean.profile.WellFormed :=
  List.forall_mem_cons.2 ⟨((described_singers ["alto"]).group rfl).wellFormed,
    List.forall_mem_singleton.2 (Bean.Described.exportAs (.destroyed (.ofMaker ..)) singer).wellFormed⟩

/-- Before anything is wired. -/
theorem stage_choir : (registered .empty choir).Stage (registered .empty choir).context
    ((registered .empty choir).reached []) :=
  .refreshing rfl

theorem collect_complete_choir :
    (∀ bean ∈ choir, bean.profile.WellFormed) ∧ (∀ bean ∈ choir, ¬ bean.profile.Twofold singer) ∧
    ∃ ctx s insts t, (registered .empty choir).Stage ctx s ∧
      (wireAll (wire ctx 2) (ctx.providers singer)).run s = (.ok insts, t) ∧
      (collectBeans ctx (wire ctx 2) singer []).run s =
        (.ok [⟨1, "elem alto"⟩, (soloist.instantiate 1 []).seenAs singer], t) := by
  have hone : ∀ bean ∈ choir, ¬ bean.profile.Twofold singer := by
    simp only [choir, Profile.Twofold]
    decide
  have hw : (wireAll (wire (registered .empty choir).context 2)
      ((registered .empty choir).context.providers singer)).run
        ((registered .empty choir).reached []) = (.ok
          [((singers ["alto"]).group rfl).instantiate 0 [], soloist.instantiate 1 []], _) := rfl
  exact ⟨wellFormed_choir, hone, _, _, _, _, stage_choir, hw,
    collect_complete stage_choir wellFormed_choir hone hw⟩

/-- A list that is seen as what its items are. -/
def chorus : List Bean :=
  [((singers ["alto"]).exportAs singer).group rfl]

/-- Of a list that is seen as what its items are, and exports these too, only itself is collected. -/
theorem collect_complete_ne :
    (∀ bean ∈ chorus, bean.profile.WellFormed) ∧
    ∃ c events inst, (registered .empty chorus).refresh = (.ok c, events) ∧
      (wireAll (wire c.context 1) (c.context.providers singer)).run c.assembly =
        (.ok [inst], c.assembly) ∧
      c.context.offered singer [inst] = [inst.seenAs singer, ⟨1, "elem alto"⟩] ∧
      (collectBeans c.context (wire c.context 1) singer []).run c.assembly =
        (.ok [inst.seenAs singer], c.assembly) := by
  have hwf : ∀ bean ∈ chorus, bean.profile.WellFormed :=
    List.forall_mem_singleton.2 (((described_singers ["alto"]).exportAs singer).group rfl).wellFormed
  exact ⟨hwf, (registered .empty chorus).finished, _,
    (((singers ["alto"]).exportAs singer).group rfl).instantiate 0 [], rfl, rfl, rfl, rfl⟩

end Builder

end ConfigGraph
