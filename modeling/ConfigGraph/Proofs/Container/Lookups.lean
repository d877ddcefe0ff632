import ConfigGraph.Container.Build
import Mathlib.Data.List.Basic

/-!
# What beans look up

A bean asks for single beans of a type, for all beans of a type, or for the container (`Bean.Asks`).
When more definitions are registered after those of a context (`Context.Widens`), a lookup that
matches none of them is answered as before: it finds the same candidates (`Widens.candidates`), and
whether something is available does not change (`Widens.available`).
-/

namespace ConfigGraph

/-- What a lookup is for. -/
inductive Lookup where
  /-- Beans of a type that a selector picks. -/
  | one (type : TypeId) (s : Selector)
  /-- All beans of a type. -/
  | every (type : TypeId)
  | container

/-- Whether a lookup matches a bean. -/
def Lookup.matches (p : Profile) : Lookup → Bool
  | one type s => (p.export? type false).isSome && s.accepts p
  | every type => p.exports.any (·.type == type)
  | container => false

/-! ## Lookups of a bean -/

/-- Selectors stand for one lookup each, none at all for a lookup of all beans. -/
def asksCollect (type : TypeId) : List Selector → Lookup → Prop
  | [], q => q = .every type
  | ss, q => ∃ s ∈ ss, q = .one type s

/-- A parameter looks something up, with what is given for it. -/
def Param.Asks (arg : Option Argument) : Param → Lookup → Prop
  | .bean type, q =>
    match arg with
    | none => q = .one type .inferred
    | some (.bean s) => q = .one type s
    | some _ => False
  | .collect type, q =>
    match arg with
    | none => q = .every type
    | some (.collect ss) => asksCollect type ss q
    | some (.bean s) => q = .one type s
    | some _ => False
  | .option content, q => content.Asks arg q
  | .prop _, _ => False
  | .container, q => q = .container

/-- One of some parameters, the first of which has the number `index`, looks something up. -/
def asksFrom (args : List Argument) (index : Nat) : List Param → Lookup → Prop
  | [], _ => False
  | p :: rest, q => p.Asks args[index]? q ∨ asksFrom args (index + 1) rest q

/-- A parameter of a function looks something up. -/
def Function.Asks (f : Function) (q : Lookup) : Prop :=
  asksFrom f.args 0 f.params q

mutual

/-- An action may look something up. -/
def Action.Asks : Action → Lookup → Prop
  | .get type s, q | .provides type s, q => q = .one type s
  | .collect type ss, q => asksCollect type ss q
  | .providesAny type, q => q = .every type
  | .container, q => q = .container
  | .call f, q => f.Asks q
  | .script s, q => s.Asks q
  | _, _ => False

/-- One of several actions may look something up, whatever has come of those before it. -/
def Script.Asks : Script → Lookup → Prop
  | .done, _ | .fail _, _ => False
  | .ask a next, q => a.Asks q ∨ ∃ outcome, (next outcome).Asks q

end

/-- An injector may look something up. -/
def Injector.Asks : Injector → Lookup → Prop
  | .act c, q => c.action.Asks q
  | .bindSelf _, _ => False

/-- A bean may look something up: for its constructor, in an injector or in a link callback. -/
inductive Bean.Asks (b : Bean) (q : Lookup) : Prop where
  | maker {params : List Param} {refusal : Option String}
      (hmaker : b.maker = .constructor params refusal)
      (h : (Function.mk params b.args refusal).Asks q)
  | injector {j : Injector} (hj : j ∈ b.injectors) (h : j.Asks q)
  | link {c : Callback} (hc : c ∈ b.links) (h : c.action.Asks q)

/-! ## Two contexts -/

namespace Context

/-- A context has the definitions of another one and some more after them. -/
structure Widens (ctx ctx' : Context) (more : List Definition) : Prop where
  definitions : ctx'.definitions = ctx.definitions ++ more
  store : ctx'.store = ctx.store

/-- A lookup is answered in the same way in a context and in one with more definitions. -/
def Same (ctx ctx' : Context) (more : List Definition) : Lookup → Prop
  | .container => ctx'.ready = ctx.ready ∧ (ctx.ready = true → more = [])
  | q => ∀ d ∈ more, q.matches d.bean.profile = false

theorem widens_self (ctx : Context) : ctx.Widens ctx [] :=
  ⟨(List.append_nil _).symm, rfl⟩

theorem same_self (ctx : Context) (q : Lookup) : ctx.Same ctx [] q := by
  cases q with
  | container => exact ⟨rfl, fun _ => rfl⟩
  | _ => exact fun d hd => absurd hd List.not_mem_nil

namespace Widens

variable {ctx ctx' : Context} {more : List Definition} (hw : ctx.Widens ctx' more)

include hw

theorem getElem? {i : Nat} (hi : i < ctx.definitions.length) :
    ctx'.definitions[i]? = ctx.definitions[i]? := by
  rw [hw.definitions, List.getElem?_append_left hi]

theorem profile? {i : Nat} (hi : i < ctx.definitions.length) : ctx'.profile? i = ctx.profile? i := by
  rw [Context.profile?, Context.profile?, hw.getElem? hi]

theorem indices :
    ctx'.indices = ctx.indices ++ (List.range more.length).map (ctx.definitions.length + ·) := by
  rw [Context.indices, Context.indices, hw.definitions, List.length_append, List.range_add]

/-- The definition of a number behind those of the smaller context is one of the others. -/
theorem profile?_more {i : Nat}
    (hi : i ∈ (List.range more.length).map (ctx.definitions.length + ·)) :
    ∃ d ∈ more, ctx'.profile? i = some d.bean.profile := by
  obtain ⟨k, hk, rfl⟩ := List.mem_map.1 hi
  have hk : k < more.length := List.mem_range.1 hk
  refine ⟨more[k], List.getElem_mem hk, ?_⟩
  rw [Context.profile?, hw.definitions, List.getElem?_append_right (Nat.le_add_right _ _),
    Nat.add_sub_cancel_left, List.getElem?_eq_getElem hk]
  rfl

/-- A lookup that matches none of the other definitions has the same candidates. -/
theorem candidates {type : TypeId} {s : Selector} (hq : ctx.Same ctx' more (.one type s)) :
    ctx'.candidates type s = ctx.candidates type s := by
  have hmore : ((List.range more.length).map (ctx.definitions.length + ·)).filter (fun i =>
      (ctx'.profile? i).any fun p => (p.export? type false).isSome && s.accepts p) = [] := by
    refine List.filter_eq_nil_iff.2 fun i hi => ?_
    obtain ⟨d, hd, hp⟩ := hw.profile?_more hi
    rw [hp, Option.any_some, Bool.not_eq_true]
    exact hq d hd
  rw [Context.candidates, hw.indices, List.filter_append, hmore, List.append_nil]
  refine List.filter_congr fun i hi => ?_
  rw [hw.profile? (List.mem_range.1 hi)]

theorem names {is : List Nat} (his : ∀ i ∈ is, i < ctx.definitions.length) :
    ctx'.names is = ctx.names is := by
  refine List.filterMap_congr fun i hi => ?_
  rw [hw.profile? (his i hi)]

theorem provides {type : TypeId} {s : Selector} (hq : ctx.Same ctx' more (.one type s)) :
    ctx'.provides type s = ctx.provides type s := by
  rw [Context.provides, hw.candidates hq, Context.provides]

theorem providesAny {type : TypeId} (hq : ctx.Same ctx' more (.every type)) :
    ctx'.providesAny type = ctx.providesAny type := by
  have hmore : more.any (fun d => d.bean.profile.exports.any (·.type == type)) = false :=
    List.any_eq_false.2 fun d hd => Bool.not_eq_true _ ▸ hq d hd
  rw [Context.providesAny, hw.definitions, List.any_append, hmore, Bool.or_false]
  rfl

theorem available {arg : Option Argument} {p : Param}
    (hq : ∀ q, p.Asks arg q → ctx.Same ctx' more q) :
    ctx'.available arg p = ctx.available arg p := by
  cases p with
  | bean type =>
    rcases arg with _ | s | ss | tag
    · exact hw.provides (hq _ rfl)
    · exact hw.provides (hq _ rfl)
    · rfl
    · rfl
  | collect type =>
    rcases arg with _ | s | ss | tag
    · exact hw.providesAny (hq _ rfl)
    · exact hw.provides (hq _ rfl)
    · cases ss with
      | nil => exact hw.providesAny (hq _ rfl)
      | cons s rest =>
        show (s :: rest).all _ = (s :: rest).all _
        rw [Bool.eq_iff_iff, List.all_eq_true, List.all_eq_true]
        exact forall₂_congr fun s hs => by rw [hw.provides (hq _ ⟨s, hs, rfl⟩)]
    · rfl
  | option content => rfl
  | prop shape => rfl
  | container => exact (hq .container rfl).1

end Widens

theorem mem_candidates_lt {ctx : Context} {type : TypeId} {s : Selector} {i : Nat}
    (hi : i ∈ ctx.candidates type s) : i < ctx.definitions.length :=
  List.mem_range.1 (List.mem_filter.1 hi).1

end Context

end ConfigGraph
