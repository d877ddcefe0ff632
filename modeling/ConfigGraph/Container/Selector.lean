/-!
# Types and selectors

The types that beans are asked for, and the queries that pick beans.
-/

namespace ConfigGraph

/-- A type that a bean has or can be seen as. -/
inductive TypeId where
  /-- A type of its own. -/
  | concrete (path : String)
  /-- An interface. -/
  | view (path : String)
  /-- A list of shared items. -/
  | list (item : TypeId)
  deriving DecidableEq

namespace TypeId

/-- The full name of a type. -/
def name : TypeId → String
  | concrete path => path
  | view path => "dyn " ++ path
  | list item => "alloc::vec::Vec<alloc::sync::Arc<" ++ item.name ++ ">>"

/-- The name of a type without its path; a list has the name of its item in the plural. -/
def short : TypeId → String
  | concrete path | view path => (path.splitOn "::").getLast?.getD path
  | list item => item.short ++ "s"

end TypeId

/-- One type that a bean can be looked up as. -/
structure Export where
  type : TypeId
  /-- Whether the bean is a list whose items are looked up, not the bean itself. -/
  elements : Bool

/-- What identifies a bean: its name, its own type, and the types it can be looked up as, its own
type first. -/
structure Profile where
  name : String
  type : TypeId
  exports : List Export

/-- The first export for a type, of the bean itself or of its items. -/
def Profile.export? (p : Profile) (type : TypeId) (elements : Bool) : Option Export :=
  p.exports.find? fun e => e.type == type && e.elements == elements

/-- A query that picks beans. -/
inductive Selector where
  /-- Any bean of the type asked for. -/
  | inferred
  | named (name : String)
  /-- Beans that can be looked up as a type. -/
  | typed (type : TypeId)

namespace Selector

/-- A name as a selector; the empty one picks any bean. -/
def ofName (name : String) : Selector :=
  if name.isEmpty then inferred else named name

/-- Whether a selector picks a bean. -/
def accepts (s : Selector) (p : Profile) : Bool :=
  match s with
  | inferred => true
  | named name => p.name == name
  | typed type => p.exports.any (·.type == type)

/-- The wording of a selector in messages. -/
def text : Selector → String
  | inferred => "<inferred>"
  | named name => name
  | typed type => "type " ++ type.name

end Selector

/-- What is given for a parameter. -/
inductive Argument where
  | bean (s : Selector)
  | collect (ss : List Selector)
  /-- A property tag. -/
  | value (tag : String)

namespace Argument

/-- A tag where the text starts like one, and else the name of a bean. -/
def ofText (s : String) : Argument :=
  match s.toList with
  | '$' :: '{' :: _ => value s
  | _ => bean (Selector.ofName s)

/-- The wording of an argument in messages. -/
def text : Argument → String
  | bean s => "bean selector '" ++ s.text ++ "'"
  | collect ss => toString ss.length ++ " collect selectors"
  | value tag => "value tag '" ++ tag ++ "'"

end Argument

end ConfigGraph
