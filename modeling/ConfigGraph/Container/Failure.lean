import ConfigGraph.Container.Selector
import ConfigGraph.Error

/-!
# Container errors

The causes for which beans cannot be looked up, wired or used, and their wording.
-/

namespace ConfigGraph

/-- Why a bean could not be looked up, wired or used. -/
inductive ContainerError where
  | beanNotFound (type : String) (selector : Selector)
  | ambiguousBean (type : TypeId) (selector : Selector) (candidates : List String)
  /-- The beans being wired, from the outermost on, and the one that was asked for again. -/
  | circularDependency (chain : List String)
  | wiringFailed (bean : String)
  | missingArgument (index : Nat) (expected : String)
  | invalidArgument (index : Nat) (expected : String) (found : Argument)
  | tooManyArguments (expected given : Nat)
  | construct (bean cause : String)
  | initialization (bean cause : String)
  | invocation (cause : String)
  | config (e : ConfigError)

namespace ContainerError

def message : ContainerError → String
  | beanNotFound type selector =>
    "no bean of type " ++ type ++ " matches selector '" ++ selector.text ++ "'"
  | ambiguousBean type selector candidates =>
    "selector '" ++ selector.text ++ "' matches " ++ toString candidates.length ++
      " beans of type " ++ type.name ++ ": " ++ ", ".intercalate candidates
  | circularDependency chain => "circular dependency: " ++ " -> ".intercalate chain
  | wiringFailed bean => "bean '" ++ bean ++ "' failed to wire earlier"
  | missingArgument index expected =>
    "parameter " ++ toString index ++ " expects " ++ expected ++ ", no argument given"
  | invalidArgument index expected found =>
    "parameter " ++ toString index ++ " expects " ++ expected ++ ", got " ++ found.text
  | tooManyArguments expected given =>
    toString given ++ " arguments given but the function takes " ++ toString expected
  | construct bean cause => "failed to construct bean '" ++ bean ++ "': " ++ cause
  | initialization bean cause => "init callback of bean '" ++ bean ++ "' failed: " ++ cause
  | invocation cause => "invoked function failed: " ++ cause
  | config e => e.message

end ContainerError

/-- An error of either part of the library. -/
inductive Failure where
  | config (e : ConfigError)
  | container (e : ContainerError)

def Failure.message : Failure → String
  | config e => "configuration error: " ++ e.message
  | container e => "container error: " ++ e.message

end ConfigGraph
