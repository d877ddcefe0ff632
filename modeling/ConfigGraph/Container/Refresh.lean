import ConfigGraph.Container.Build

/-!
# Refreshing

All definitions are wired in the order of registration, each with what it asks for before it. Then
the link callbacks run. When something fails, the beans that are ready are destroyed, the last one
first.
-/

namespace ConfigGraph

/-- Takes a definition that has been built to the end: its init callback runs, and it is ready. -/
def finish (i : Nat) (b : Bean) (inst : Instance) : Wiring Instance := do
  match ← (initialized (some i) b inst).attempt with
  | .error e => do
    .once (.abandon i)
    .fail e
  | .ok inst => do
    .once (.complete i inst)
    return inst

/-- Wires a definition that has not been wired; `inner` wires what it asks for. -/
def wireNow (ctx : Context) (inner : Nat → Wiring Instance) (i : Nat) (d : Definition) :
    Wiring Instance := do
  .once (.enter i d.bean.profile.name)
  match ← (build ctx inner (some i) d).attempt with
  | .error e => do
    .once (.leave i false)
    .fail e
  | .ok inst => do
    .once (.leave i true)
    finish i d.bean inst

/-- The error for a definition that is being wired already. -/
def circular (name : String) : Wiring Instance := do
  .fail (.circularDependency ((← Wiring.current).trace ++ [name]))

/-- The instance of the definition with a number, once that is ready. One that has not been wired is
now wired by `now`. -/
def wireBy (ctx : Context) (now : Definition → Wiring Instance) (i : Nat) : Wiring Instance := do
  match ctx.definitions[i]?, (← Wiring.current).slots[i]? with
  | some d, some slot =>
    match slot.inst with
    | some inst => return inst
    | none =>
      match slot.state, slot.toBuild with
      | .unwired, true => now d
      | .failed, _ => .fail (.wiringFailed d.bean.profile.name)
      | _, _ => circular d.bean.profile.name
  | _, _ => .fail (.wiringFailed "")

/-- Wires the definition with a number, unless it is ready. Each wiring inside another one takes a
definition that has not been wired, so a depth of as many as there are is never used up. -/
def wire (ctx : Context) : Nat → Nat → Wiring Instance
  | 0, i => wireBy ctx (fun d => circular d.bean.profile.name) i
  | depth + 1, i => wireBy ctx (wireNow ctx (wire ctx depth) i) i

/-- Wires a definition of a container. -/
def wireBean (ctx : Context) (i : Nat) : Wiring Instance :=
  wire ctx ctx.definitions.length i

/-- Runs the link callbacks of a ready definition, once. -/
def linkBean (ctx : Context) (i : Nat) : Wiring Unit := do
  match ctx.definitions[i]?, (← Wiring.current).slots[i]? with
  | some d, some slot => do
    .once (.takeLinks i)
    match slot.toLink, slot.inst with
    | true, some inst =>
      Wiring.within ⟨d.bean.profile.name, none⟩
        (runLinks ctx (wireBean ctx) (some i) inst.handle d.bean.links)
    | _, _ => return ()
  | _, _ => return ()

/-- Wires the definitions with these numbers, up to the first that fails. -/
def wireEach (ctx : Context) : List Nat → Wiring Unit
  | [] => return ()
  | i :: rest => do
    let _ ← fetch (wireBean ctx) i
    wireEach ctx rest

/-- Links the definitions with these numbers, up to the first that fails. -/
def linkEach (ctx : Context) : List Nat → Wiring Unit
  | [] => return ()
  | i :: rest => do
    linkBean ctx i
    linkEach ctx rest

/-- Wires and links all definitions. -/
def assemble (ctx : Context) : Wiring Unit := do
  wireEach ctx ctx.indices
  linkEach ctx ctx.indices

/-- What destroying instances brings about, the last of them first. -/
def destroyAll (is : List Instance) : List Event :=
  is.reverse.map fun i => .destroyed i.handle

end ConfigGraph
