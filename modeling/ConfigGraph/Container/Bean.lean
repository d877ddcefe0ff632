import ConfigGraph.Container.Event

/-!
# Beans

A bean is described before it is made: how it is constructed, what is done to it afterwards, and
what it can be looked up as. Callbacks are actions on what surrounds the bean, one or several of
them.
-/

namespace ConfigGraph

/-- How a parameter is supplied. -/
inductive Param where
  /-- The only bean of a type. -/
  | bean (type : TypeId)
  /-- All beans of a type. -/
  | collect (type : TypeId)
  /-- The parameter, or nothing where no bean matches. -/
  | option (content : Param)
  /-- A property, bound by the tag that is given. -/
  | prop (shape : Shape)
  /-- The container, once it is ready. -/
  | container

/-- A function with parameters, what is given for them, and the text with which it refuses. -/
structure Function where
  params : List Param
  args : List Argument
  refusal : Option String

mutual

/-- What a callback may do. -/
inductive Action where
  | get (type : TypeId) (s : Selector)
  | collect (type : TypeId) (ss : List Selector)
  | provides (type : TypeId) (s : Selector)
  | providesAny (type : TypeId)
  | prop (key : Text)
  | keys
  | resolve (text : Text)
  | bind (start : Start) (shape : Shape)
  | trace
  | container
  | fail (message : String)
  | call (f : Function)
  | script (s : Script)

/-- Several actions, each chosen by what has come of those before it. -/
inductive Script where
  | done
  | fail (e : ContainerError)
  | ask (a : Action) (next : Except ContainerError Outcome → Script)

end

/-- The name of an action. -/
def Action.name : Action → String
  | get .. => "get"
  | collect .. => "collect"
  | provides .. => "provides"
  | providesAny _ => "provides_any"
  | prop _ => "prop"
  | keys => "keys"
  | resolve _ => "resolve"
  | bind .. => "bind"
  | trace => "trace"
  | container => "container"
  | fail _ => "fail"
  | call _ => "call"
  | script _ => "script"

/-- An action and what becomes of its error: it is discarded, or the callback fails with it. -/
structure Callback where
  action : Action
  swallow : Bool

/-- What is done to a bean after its construction. -/
inductive Injector where
  | act (c : Callback)
  /-- Binds properties onto the bean, from where a tag leads. -/
  | bindSelf (tag : Text)

/-- A callback that completes a bean. -/
structure Init where
  /-- The text with which it fails. -/
  failure : Option String

/-- How a bean comes to be. -/
inductive Maker where
  /-- It exists when it is registered. -/
  | object
  /-- It is made by a function of these parameters, which may refuse with a text. -/
  | constructor (params : List Param) (refusal : Option String)

/-- A bean before it is made. -/
structure Bean where
  profile : Profile
  label : String
  /-- The texts of the items; a bean that is not a list has no use for them. -/
  elements : List String
  maker : Maker
  /-- What is given for the parameters of its constructor; an object has no use for it. -/
  args : List Argument
  /-- What the properties bound onto the bean look like. -/
  shape : List (Field Shape)
  injectors : List Injector
  init : Option Init
  links : List Callback
  destroys : Bool

namespace Bean

/-! ## Describing beans -/

/-- A bean of a type, which goes by the name of this type and can be looked up as it. -/
def ofMaker (type : TypeId) (maker : Maker) (label : String) (elements : List String)
    (shape : List (Field Shape)) : Bean where
  profile := ⟨type.name, type, [⟨type, false⟩]⟩
  label := label
  elements := elements
  maker := maker
  args := []
  shape := shape
  injectors := []
  init := none
  links := []
  destroys := false

/-- The bean under another name. -/
def named (b : Bean) (name : String) : Bean :=
  { b with profile := { b.profile with name } }

/-- The bean with what is given for the parameters of its constructor. -/
def withArgs (b : Bean) (args : List Argument) : Bean :=
  { b with args }

/-- The bean with one more thing done to it after its construction. -/
def inject (b : Bean) (i : Injector) : Bean :=
  { b with injectors := b.injectors ++ [i] }

/-- The bean with a callback that completes it. -/
def withInit (b : Bean) (init : Init) : Bean :=
  { b with init := some init }

/-- The bean with one more callback for when all beans are ready. -/
def link (b : Bean) (c : Callback) : Bean :=
  { b with links := b.links ++ [c] }

/-- The bean with a callback for when the container closes. -/
def destroyed (b : Bean) : Bean :=
  { b with destroys := true }

/-- The bean, which can be looked up as one more type. -/
def exportAs (b : Bean) (type : TypeId) : Bean :=
  { b with profile := { b.profile with exports := b.profile.exports ++ [⟨type, false⟩] } }

/-- The list bean, whose items can be looked up. -/
def group (b : Bean) {item : TypeId} (_ : b.profile.type = .list item) : Bean :=
  { b with profile := { b.profile with exports := b.profile.exports ++ [⟨item, true⟩] } }

/-! ## Making beans -/

/-- The items of a bean, numbered from `next` on. Only list beans have items. -/
def itemsFrom (b : Bean) (next : Nat) : List Element :=
  match b.profile.type with
  | .list item => Element.ofTexts item next b.elements
  | _ => []

/-- The instance of a bean, whose number follows `made`. -/
def instantiate (b : Bean) (made : Nat) (deps : List Supplied) : Instance where
  type := b.profile.type
  number := made + 1
  label := b.label
  elements := b.itemsFrom (made + 2)
  deps := deps
  bound := none
  initialized := false

end Bean

/-- A registered bean, with its instance where it exists already. -/
structure Definition where
  bean : Bean
  object : Option Instance

end ConfigGraph
