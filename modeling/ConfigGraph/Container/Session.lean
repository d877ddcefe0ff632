import ConfigGraph.Container.Builder

/-!
# Using a container

The beans of a container are looked up and used step by step until it is closed. Functions may run
as tasks beside the steps; what happens in a task is kept until it is waited for.

Each task runs on a thread of its own. Nothing that a task reads changes while the container is used,
so when it runs makes no difference to what happens in it, and here it runs as it is started. The
handles of the threads are left out. The program joins those of finished tasks when it starts another
one, and while it waits it takes the handles round after round until there is none, as a task may
start tasks; steps that are taken one after the other see neither. That the system refuses a thread,
for which starting a task has an error, is left out as well.
-/

namespace ConfigGraph

/-- How a task ends that has been given its parameters. -/
inductive Ending where
  | returns
  | fails (text : String)
  /-- A panic, with its text where it has one. -/
  | panics (text : Option String)

/-- A function that runs beside the others. -/
structure Task where
  params : List Param
  args : List Argument
  ending : Ending

/-- What is asked of a container. -/
inductive Step where
  | get (type : TypeId) (s : Selector)
  /-- Like `get`, with what the instance is made of. -/
  | inspect (type : TypeId) (s : Selector)
  | collect (type : TypeId) (ss : List Selector)
  | find (s : Selector)
  | prop (key : Text)
  | propOr (key default : Text)
  | keys
  | bind (start : Start) (shape : Shape)
  /-- Makes a bean that is not registered. -/
  | wire (bean : Bean)
  | invoke (f : Function)
  | go (t : Task)
  | wait
  | close
  | describe

/-- The answer to a step. -/
inductive Reply where
  | nothing
  | bean (h : Handle)
  | made (i : Instance)
  | beans (hs : List Handle)
  | infos (infos : List BeanInfo)
  | property (text : Option Text)
  | keys (keys : List Text)
  | value (b : Bound)
  | description (text : String)

/-- Makes a bean outside of the registered ones: its constructor, injectors, init callback and link
callbacks run. -/
def wireApart (ctx : Context) (inner : Nat → Wiring Instance) (d : Definition) : Wiring Instance :=
  Wiring.within ⟨d.bean.profile.name, none⟩ do
    let built ← build ctx inner none d
    let inst ← initialized none d.bean built
    runLinks ctx inner none inst.handle d.bean.links
    return inst

namespace Container

/-- What lookups in a container refer to. -/
def context (c : Container) : Context :=
  ⟨c.definitions, c.store, true⟩

/-- The assembly in which a step takes place. -/
def assembly (c : Container) : Assembly where
  slots := c.slots
  chain := []
  ready := c.ready
  made := c.made
  events := []

/-- Runs a step on the beans of a container. -/
def run {α : Type} (c : Container) (x : Wiring α) :
    Except ContainerError α × List Event × Container :=
  let (r, s) := x.run c.assembly
  (r, s.events, { c with made := s.made })

/-- The beans that a selector picks. -/
def find (c : Container) (s : Selector) : List BeanInfo :=
  (c.definitions.filter (s.accepts ·.bean.profile)).map fun d => ⟨d.bean.profile, .ready⟩

/-- Supplies the parameters of a function, which is then called. -/
def call (c : Container) (f : Function) : Wiring Unit := do
  let values ← supplyAll c.context (wireBean c.context) f
  Wiring.note (.called values)

/-- Calls a function with its parameters. -/
def called (c : Container) (f : Function) : Wiring Reply := do
  c.call f
  match f.refusal with
  | some text => .fail (.invocation text)
  | none => return .nothing

/-- What happens in a task with a number. -/
def taskEvents (c : Container) (number : Nat) (t : Task) : List Event :=
  match c.run (c.call ⟨t.params, t.args, none⟩) with
  | (.error e, events, _) => events ++ [.taskFailed number e.message]
  | (.ok (), events, _) =>
    match t.ending with
    | .returns => events
    | .fails text => events ++ [.taskFailed number text]
    | .panics text => events ++ [.taskPanicked number (text.getD "<unknown panic>")]

/-- Starts a task. There is always a thread for it. -/
def go (c : Container) (t : Task) : Container :=
  { c with tasks := c.tasks + 1, pending := c.pending ++ [(c.tasks, c.taskEvents c.tasks t)] }

/-- Waits for all tasks: what happened in them, by their numbers. No task starts another one, so one
round is enough. -/
def wait (c : Container) : List Event × Container :=
  let events := c.pending.filterMap fun (number, events) =>
    if events.isEmpty then none else some (.task number events)
  (events, { c with pending := [] })

/-- Waits for all tasks and destroys the beans, unless that has been done. -/
def close (c : Container) : List Event × Container :=
  let (events, c) := c.wait
  (events ++ destroyAll c.destroyable ++ [.closed], { c with destroyable := [] })

/-- A short description. -/
def describe (c : Container) : String :=
  "Container \x7b beans: " ++ toString c.definitions.length ++ ", properties: " ++
    toString c.store.size ++ ", .. \x7d"

/-- Takes a step. -/
def step (c : Container) : Step → Except ContainerError Reply × List Event × Container
  | .get type s => c.run (.bean <$> getBean c.context (wireBean c.context) type s)
  | .inspect type s => c.run do
      let (_, _, inst) ← locate c.context (wireBean c.context) type s
      return .made inst
  | .collect type ss => c.run (.beans <$> collectBeans c.context (wireBean c.context) type ss)
  | .find s => (.ok (.infos (c.find s)), [], c)
  | .prop key => (.ok (.property (c.store.get? key)), [], c)
  | .propOr key default => (.ok (.property (some ((c.store.get? key).getD default))), [], c)
  | .keys => (.ok (.keys c.store.keys), [], c)
  | .bind start shape => (((c.store.bind start shape).map .value).mapError .config, [], c)
  | .wire bean => c.run (.made <$> wireApart c.context (wireBean c.context) ⟨bean, none⟩)
  | .invoke f => c.run (c.called f)
  | .go t => (.ok .nothing, [], c.go t)
  | .wait => let (events, c) := c.wait; (.ok .nothing, events, c)
  | .close => let (events, c) := c.close; (.ok .nothing, events, c)
  | .describe => (.ok (.description c.describe), [], c)

end Container

end ConfigGraph
