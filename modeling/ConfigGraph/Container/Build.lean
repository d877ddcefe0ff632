import ConfigGraph.Container.Lookup

/-!
# Building beans

The steps from a description to an instance: constructor, injectors and init callback. How the
beans that are asked for on the way are wired is a parameter here.
-/

namespace ConfigGraph

variable (ctx : Context) (wire : Nat → Wiring Instance)

mutual

/-- What comes of an action. -/
def perform : Action → Wiring Outcome
  | .get type s => .bean <$> getBean ctx wire type s
  | .collect type ss => .beans <$> collectBeans ctx wire type ss
  | .provides type s => return .flag (ctx.provides type s)
  | .providesAny type => return .flag (ctx.providesAny type)
  | .prop key => return .property (ctx.store.get? key)
  | .keys => return .keys ctx.store.keys
  | .resolve text =>
    .ofExcept (((Reference.resolve ctx.store text).map (.property ∘ some)).mapError .config)
  | .bind start shape => .ofExcept (((ctx.store.bind start shape).map .value).mapError .config)
  | .trace => do return .names (← Wiring.current).trace
  | .container => return .flag ctx.ready
  | .fail message => .fail (.invocation message)
  | .call f => do
    let values ← supplyAll ctx wire f
    Wiring.note (.called values)
    match f.refusal with
    | some text => return .refused text
    | none => return .nothing
  | .script s => follow s

/-- What comes of several actions. -/
def follow : Script → Wiring Outcome
  | .done => return .nothing
  | .fail e => .fail e
  | .ask a next => do
    let outcome ← (perform a).attempt
    follow (next outcome)

end

/-- Runs a callback of an instance and notes what came of it. -/
def runCallback (phase : Phase) (h : Handle) (c : Callback) : Wiring Unit := do
  let outcome ← (perform ctx wire c.action).attempt
  Wiring.note (.acted phase h c.action.name outcome)
  match outcome with
  | .ok _ => return ()
  | .error e => if c.swallow then return () else .fail e

/-- Runs the link callbacks of an instance one after the other, up to the first that fails. -/
def runLinks (owner : Option Nat) (h : Handle) (links : List Callback) : Wiring Unit :=
  Wiring.inTurn owner .link (fun () c => runCallback ctx wire .link h c) 0 () links

/-- Makes the instance of a bean. -/
def makeInstance (b : Bean) (deps : List Supplied) : Wiring Instance := do
  let inst := b.instantiate (← Wiring.current).made deps
  .once (.number inst.taken)
  Wiring.note (.constructed inst.handle deps)
  return inst

/-- Runs the function that makes a bean, once its parameters are supplied. -/
def runConstructor (b : Bean) (refusal : Option String) (deps : List Supplied) :
    Wiring Instance :=
  match refusal with
  | some text => do
    Wiring.note (.constructorFailed deps)
    .fail (.construct b.profile.name text)
  | none => makeInstance b deps

/-- Constructs a bean. -/
def construct (owner : Option Nat) (d : Definition) : Wiring Instance :=
  match d.object, d.bean.maker with
  | some inst, _ => Wiring.part owner .constructor (return inst)
  | none, .object => Wiring.part owner .constructor (makeInstance d.bean [])
  | none, .constructor params refusal => do
    let deps ← supplyAll ctx wire ⟨params, d.bean.args, refusal⟩
    Wiring.part owner .constructor (runConstructor d.bean refusal deps)

/-- Runs an injector on an instance. -/
def runInjector (b : Bean) (inst : Instance) : Injector → Wiring Instance
  | .act c => do
    runCallback ctx wire .inject inst.handle c
    return inst
  | .bindSelf tag =>
    let name := inst.type.short.toList
    match ctx.store.bindAs name (.tag tag) (.record name b.shape) with
    | .ok bound => return { inst with bound := some bound }
    | .error e => .fail (.config e)

/-- Constructs a bean and runs its injectors one after the other, up to the first that fails. -/
def build (owner : Option Nat) (d : Definition) : Wiring Instance := do
  let inst ← construct ctx wire owner d
  Wiring.inTurn owner .injector (runInjector ctx wire d.bean) 0 inst d.bean.injectors

/-- Runs an init callback. -/
def runInit (b : Bean) (init : Init) (inst : Instance) : Wiring Instance := do
  Wiring.note (.initialized inst.handle)
  match init.failure with
  | some text => .fail (.initialization b.profile.name text)
  | none => return { inst with initialized := true }

/-- Runs the init callback of a bean, if it has one. -/
def initialized (owner : Option Nat) (b : Bean) (inst : Instance) : Wiring Instance :=
  match b.init with
  | none => return inst
  | some init => Wiring.part owner .init (runInit b init inst)

end ConfigGraph
