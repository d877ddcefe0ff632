import ConfigGraph.Error

/-!
# Log lines

What the library reports about its work besides results and errors.
-/

namespace ConfigGraph

/-- How much attention a log line asks for. -/
inductive LogLevel where
  | info
  | warn
  | error

def LogLevel.name : LogLevel → String
  | info => "INFO"
  | warn => "WARN"
  | error => "ERROR"

/-- A message with named fields. -/
structure LogLine where
  level : LogLevel
  message : String
  fields : List (String × String)

end ConfigGraph
