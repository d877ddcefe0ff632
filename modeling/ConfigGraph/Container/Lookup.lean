import ConfigGraph.Container.Wiring

/-!
# Lookups

Finding beans by type and selector, and supplying the parameters of functions. A lookup wires the
beans it finds; the function that does so is a parameter here.
-/

namespace ConfigGraph

namespace Context

/-- What identifies the definition with a number. -/
def profile? (ctx : Context) (i : Nat) : Option Profile :=
  (ctx.definitions[i]?).map (·.bean.profile)

/-- The numbers of all definitions. -/
def indices (ctx : Context) : List Nat :=
  List.range ctx.definitions.length

/-- The definitions that are of a type or are seen as it, and that a selector picks. -/
def candidates (ctx : Context) (type : TypeId) (s : Selector) : List Nat :=
  ctx.indices.filter fun i =>
    (ctx.profile? i).any fun p => (p.export? type false).isSome && s.accepts p

/-- Whether there is a bean of a type that a selector picks. -/
def provides (ctx : Context) (type : TypeId) (s : Selector) : Bool :=
  !(ctx.candidates type s).isEmpty

/-- Whether there is a bean of a type, or a list with such items. -/
def providesAny (ctx : Context) (type : TypeId) : Bool :=
  ctx.definitions.any fun d => d.bean.profile.exports.any (·.type == type)

/-- The names of the definitions with these numbers. -/
def names (ctx : Context) (is : List Nat) : List String :=
  is.filterMap fun i => (ctx.profile? i).map (·.name)

/-- Whether a parameter can be supplied, as far as matching goes; nothing is wired. -/
def available (ctx : Context) (arg : Option Argument) : Param → Bool
  | .bean type =>
    match arg with
    | none => ctx.provides type .inferred
    | some (.bean s) => ctx.provides type s
    | some _ => true
  | .collect type =>
    match arg with
    | none => ctx.providesAny type
    | some (.collect ss) =>
      if ss.isEmpty then ctx.providesAny type else ss.all (ctx.provides type)
    | some (.bean s) => ctx.provides type s
    | some _ => true
  | .container => ctx.ready
  | .option _ | .prop _ => true

end Context

variable (ctx : Context) (wire : Nat → Wiring Instance)

/-- The error for a type of which no bean matches. -/
def notFound (type : TypeId) (s : Selector) : ContainerError :=
  .beanNotFound type.name s

/-- Gives a lookup the instance of a definition, and marks that it does. -/
def fetch (i : Nat) : Wiring Instance := do
  .once (.ask i)
  match ← (wire i).attempt with
  | .ok inst => do
    .once (.receive i)
    return inst
  | .error e => do
    .once (.refuse i e)
    .fail e

/-- The instance of the only bean of a type that a selector picks, with the export and the own type
it is seen by. -/
def locate (type : TypeId) (s : Selector) : Wiring (Export × TypeId × Instance) :=
  match ctx.candidates type s with
  | [] => .fail (notFound type s)
  | [i] =>
    match (ctx.profile? i).bind fun p => (p.export? type false).map (p.type, ·) with
    | none => .fail (notFound type s)
    | some (own, e) => do
      let inst ← fetch wire i
      return (e, own, inst)
  | is => .fail (.ambiguousBean type s (ctx.names is))

/-- The only bean of a type that a selector picks. -/
def getBean (type : TypeId) (s : Selector) : Wiring Handle := do
  let (e, own, inst) ← locate ctx wire type s
  match e.cast? own inst with
  | some h => return h
  | none => .fail (notFound type s)

/-- One bean for each selector, in their order. -/
def getEach (type : TypeId) : List Selector → Wiring (List Handle)
  | [] => return []
  | s :: rest => do
    let h ← getBean ctx wire type s
    return h :: (← getEach type rest)

/-- What the definitions with these numbers have to offer of a type. -/
def gather (type : TypeId) : List Nat → Wiring (List Handle)
  | [] => return []
  | i :: rest =>
    match (ctx.profile? i).bind fun p =>
        (p.exports.find? (·.type == type)).map (p.type, ·) with
    | none => gather type rest
    | some (own, e) => do
      let inst ← fetch wire i
      let own :=
        if e.elements then (e.castItems? own inst).getD [] else (e.cast? own inst).toList
      return own ++ (← gather type rest)

/-- The beans of a type: one for each selector, or without selectors all there are, with the items
of lists, in the order of registration. -/
def collectBeans (type : TypeId) (ss : List Selector) : Wiring (List Handle) :=
  if ss.isEmpty then do
    let hs ← gather ctx wire type ctx.indices
    if hs.isEmpty then .fail (notFound type .inferred) else return hs
  else getEach ctx wire type ss

/-- The name of the type of containers. -/
def containerType : String := "propwire::context::Container"

/-- Supplies the parameter with a number from what is given for it. -/
def supply (index : Nat) (arg : Option Argument) : Param → Wiring Supplied
  | .bean type =>
    match arg with
    | none => .bean <$> getBean ctx wire type .inferred
    | some (.bean s) => .bean <$> getBean ctx wire type s
    | some found => .fail (.invalidArgument index "a bean selector" found)
  | .collect type =>
    match arg with
    | none => .beans <$> collectBeans ctx wire type []
    | some (.collect ss) => .beans <$> collectBeans ctx wire type ss
    | some (.bean s) => .beans <$> collectBeans ctx wire type [s]
    | some found => .fail (.invalidArgument index "collect selectors" found)
  | .option content =>
    if ctx.available arg content then .present <$> supply index arg content
    else return .absent
  | .prop shape =>
    match arg with
    | some (.value tag) =>
      match ctx.store.bind (.tag tag.toList) shape with
      | .ok b => return .property b
      | .error e => .fail (.config e)
    | some found => .fail (.invalidArgument index "a value tag" found)
    | none => .fail (.missingArgument index "a value tag")
  | .container =>
    match arg with
    | some found => .fail (.invalidArgument index "no argument" found)
    | none =>
      if ctx.ready then return .container (ctx.definitions.map (·.bean.profile.name))
      else .fail (.beanNotFound containerType .inferred)

/-- Supplies parameters in order, the first of which has the number `index`. -/
def supplyFrom (args : List Argument) (index : Nat) : List Param → Wiring (List Supplied)
  | [] => return []
  | p :: rest => do
    let value ← supply ctx wire index args[index]? p
    return value :: (← supplyFrom args (index + 1) rest)

/-- Supplies all parameters of a function; there must not be more arguments than parameters. -/
def supplyAll (f : Function) : Wiring (List Supplied) := do
  let values ← supplyFrom ctx wire f.args 0 f.params
  if f.params.length < f.args.length then
    .fail (.tooManyArguments f.params.length f.args.length)
  else return values

end ConfigGraph
