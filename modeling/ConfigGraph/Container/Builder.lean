import ConfigGraph.Container.Refresh

/-!
# Builders

Beans are registered on a builder. Refreshing it gives a container, in which every bean is ready.
-/

namespace ConfigGraph

/-- What can be found out about a bean without wiring it. -/
structure BeanInfo where
  profile : Profile
  state : State

/-- The beans registered so far, and what registering them has brought about. -/
structure Builder where
  definitions : List Definition
  store : Store
  made : Nat
  events : List Event

namespace Builder

/-- A builder without beans. -/
def start (store : Store) : Builder where
  definitions := []
  store := store
  made := 0
  events := []

/-- Registers a bean. An object is made right away. -/
def register (b : Builder) (bean : Bean) : Builder :=
  match bean.maker with
  | .object =>
    let inst := bean.instantiate b.made []
    { b with
      definitions := b.definitions ++ [⟨bean, some inst⟩]
      made := b.made + inst.taken
      events := b.events ++ [.constructed inst.handle []] }
  | .constructor .. => { b with definitions := b.definitions ++ [⟨bean, none⟩] }

/-- The beans that a selector picks. -/
def find (b : Builder) (s : Selector) : List BeanInfo :=
  (b.definitions.filter (s.accepts ·.bean.profile)).map fun d => ⟨d.bean.profile, .unwired⟩

/-- What the wiring of the registered beans refers to. -/
def context (b : Builder) : Context :=
  ⟨b.definitions, b.store, false⟩

/-- The assembly before anything is wired. -/
def assembly (b : Builder) : Assembly where
  slots := b.definitions.map Definition.slot
  chain := []
  ready := []
  made := b.made
  events := b.events

end Builder

/-- A refreshed container: every bean is ready. -/
structure Container where
  definitions : List Definition
  store : Store
  slots : List Slot
  /-- The numbers of the definitions, in the order in which they became ready. -/
  ready : List Nat
  /-- The instances with a destroy callback, in the order in which they became ready. Closing
  destroys the last of them first. -/
  destroyable : List Instance
  made : Nat
  /-- How many tasks have been started. -/
  tasks : Nat
  /-- What happened in the tasks that have not been waited for. -/
  pending : List (Nat × List Event)

/-- The definitions that have an instance, each with its progress: what a container is made of. -/
def Assembly.kept (ctx : Context) (s : Assembly) : List (Definition × Slot) :=
  (ctx.definitions.zip s.slots).filter (·.2.inst.isSome)

/-- Wires and links the registered beans. When that fails the beans that are ready are destroyed,
and the error is the one that ended it. -/
def Builder.refresh (b : Builder) : Except ContainerError Container × List Event :=
  match (assemble b.context).run b.assembly with
  | (.error e, s) => (.error e, s.events ++ destroyAll (s.destroyable b.context))
  | (.ok (), s) =>
    let kept := s.kept b.context
    let container : Container := {
      definitions := kept.map (·.1)
      store := b.store
      slots := kept.map (·.2)
      ready := s.ready
      destroyable := s.destroyable b.context
      made := s.made
      tasks := 0
      pending := [] }
    (.ok container, s.events ++ [.refreshed kept.length])

end ConfigGraph
