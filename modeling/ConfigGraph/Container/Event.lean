import ConfigGraph.Container.Failure
import ConfigGraph.Container.Instance
import ConfigGraph.Log

/-!
# Events

What happens while beans are wired and used, in order, and what of it is logged.
-/

namespace ConfigGraph

/-- What comes of an action. -/
inductive Outcome where
  | nothing
  | bean (h : Handle)
  | beans (hs : List Handle)
  | flag (b : Bool)
  | property (text : Option Text)
  | keys (keys : List Text)
  | names (names : List String)
  | value (b : Bound)
  /-- The text with which a function has refused. -/
  | refused (text : String)

/-- When a callback runs. -/
inductive Phase where
  | inject
  | link
  deriving DecidableEq

/-- Something that has happened. -/
inductive Event where
  /-- A constructor has made this instance from these parameters. -/
  | constructed (h : Handle) (deps : List Supplied)
  | constructorFailed (deps : List Supplied)
  | initialized (h : Handle)
  | acted (phase : Phase) (h : Handle) (action : String) (outcome : Except ContainerError Outcome)
  /-- A function was called with these parameters. -/
  | called (values : List Supplied)
  | destroyed (h : Handle)
  | refreshed (beans : Nat)
  | closed
  | taskFailed (task : Nat) (cause : String)
  | taskPanicked (task : Nat) (text : String)
  /-- What happened in a task. -/
  | task (number : Nat) (events : List Event)

/-- The name of the task with a number. -/
def taskName (number : Nat) : String :=
  "container-task-" ++ toString number

/-- The log line of an event; what callbacks and functions do is not logged. -/
def Event.log? : Event → Option LogLine
  | refreshed beans => some ⟨.info, "container refreshed", [("beans", toString beans)]⟩
  | closed => some ⟨.info, "container closed", []⟩
  | taskFailed n cause =>
    some ⟨.error, "task failed", [("task", taskName n), ("error", cause)]⟩
  | taskPanicked n text =>
    some ⟨.error, "task panicked", [("task", taskName n), ("panic", text)]⟩
  | _ => none

end ConfigGraph
