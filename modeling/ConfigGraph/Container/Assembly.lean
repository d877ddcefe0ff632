import ConfigGraph.Container.Bean
import ConfigGraph.Container.Event
import ConfigGraph.Store.Basic

/-!
# Assemblies

How far the definitions of a container have come (`Assembly`). An assembly changes by acts (`Act`),
each of which is done at once: nothing else that happens comes to see a part of it.
-/

namespace ConfigGraph

/-- How far a definition has come. -/
inductive State where
  | unwired
  /-- Its constructor or its injectors are running. -/
  | wiring
  /-- It is constructed and injected; its init callback is pending. -/
  | wired
  | ready
  /-- Its constructor, an injector or its init callback has failed. -/
  | failed
  deriving DecidableEq

def State.name : State → String
  | unwired => "Unwired"
  | wiring => "Wiring"
  | wired => "Wired"
  | ready => "Ready"
  | failed => "Failed"

/-- The progress of one definition. -/
structure Slot where
  state : State
  /-- Whether its constructor and injectors have still to run. -/
  toBuild : Bool
  inst : Option Instance
  /-- Whether its link callbacks have still to run. -/
  toLink : Bool

/-- What wiring refers to and never changes. -/
structure Context where
  definitions : List Definition
  store : Store
  /-- Whether all definitions are ready, so that there is a container. -/
  ready : Bool

/-- A bean that is at work: what a chain is made of. -/
structure Frame where
  name : String
  /-- The number of the definition while its constructor or its injectors run. A bean whose link
  callbacks run, or that is not registered, has none. -/
  wires : Option Nat

/-- The progress of all definitions. -/
structure Assembly where
  slots : List Slot
  /-- The beans that are at work, the outermost first. -/
  chain : List Frame
  /-- The numbers of the ready definitions, in the order in which they became ready. -/
  ready : List Nat
  /-- How many instances have been made. -/
  made : Nat
  events : List Event

/-- A function of a bean that runs while beans are wired and linked. -/
inductive Part where
  | constructor
  | injector (number : Nat)
  | init
  | link (number : Nat)
  deriving DecidableEq

/-- A part begins to run, or it ends without an error. -/
inductive Mark where
  | begins (p : Part)
  | ends (p : Part)
  deriving DecidableEq

/-- What is done to an assembly at once. The last four kinds change nothing: they mark what goes
on. -/
inductive Act where
  /-- A definition begins to be wired: it joins the chain, and it is not to be built again. -/
  | enter (i : Nat) (name : String)
  /-- The constructor and the injectors of a definition are over, with success or not: it leaves the
  chain. -/
  | leave (i : Nat) (success : Bool)
  /-- The init callback of a definition is over: its instance is ready. -/
  | complete (i : Nat) (inst : Instance)
  /-- The init callback of a definition has failed. -/
  | abandon (i : Nat)
  /-- The link callbacks of a definition are taken, to run now or never. -/
  | takeLinks (i : Nat)
  | push (f : Frame)
  | pop
  /-- An instance and its items take numbers. -/
  | number (taken : Nat)
  | note (e : Event)
  /-- A part of a definition begins or ends; beans that are not registered have no number. -/
  | mark (owner : Option Nat) (m : Mark)
  /-- A lookup comes to a definition. -/
  | ask (i : Nat)
  /-- A lookup is given the instance of a definition. -/
  | receive (i : Nat)
  /-- A lookup is given an error in place of the instance of a definition. -/
  | refuse (i : Nat) (e : ContainerError)

namespace Definition

/-- The progress of a definition that has just been registered. -/
def slot (d : Definition) : Slot where
  state := .unwired
  toBuild := true
  inst := none
  toLink := !d.bean.links.isEmpty

end Definition

namespace Assembly

/-- The names of the beans at work, the outermost first. -/
def trace (s : Assembly) : List String :=
  s.chain.map (·.name)

/-- Changes the progress of one definition. -/
def modifySlot (s : Assembly) (i : Nat) (f : Slot → Slot) : Assembly :=
  { s with slots := s.slots.modify i f }

/-- The assembly after an act. -/
def act (s : Assembly) : Act → Assembly
  | .enter i name =>
    { s.modifySlot i fun slot => { slot with state := .wiring, toBuild := false } with
      chain := s.chain ++ [⟨name, some i⟩] }
  | .leave i success =>
    { s.modifySlot i fun slot => { slot with state := if success then .wired else .failed } with
      chain := s.chain.dropLast }
  | .complete i inst =>
    { s.modifySlot i fun slot => { slot with inst := some inst, state := .ready } with
      ready := s.ready ++ [i] }
  | .abandon i => s.modifySlot i fun slot => { slot with state := .failed }
  | .takeLinks i => s.modifySlot i fun slot => { slot with toLink := false }
  | .push f => { s with chain := s.chain ++ [f] }
  | .pop => { s with chain := s.chain.dropLast }
  | .number taken => { s with made := s.made + taken }
  | .note e => { s with events := s.events ++ [e] }
  | .mark .. | .ask _ | .receive _ | .refuse .. => s

/-- The assembly after some acts, one after the other. -/
def after (s : Assembly) (acts : List Act) : Assembly :=
  acts.foldl act s

/-- The instance of the definition with a number, once that is ready. -/
def instance? (s : Assembly) (i : Nat) : Option Instance :=
  (s.slots[i]?).bind (·.inst)

/-- The ready instances with a destroy callback, in the order in which they became ready. -/
def destroyable (ctx : Context) (s : Assembly) : List Instance :=
  s.ready.filterMap fun i =>
    if (ctx.definitions[i]?).any (·.bean.destroys) then s.instance? i else none

end Assembly

end ConfigGraph
