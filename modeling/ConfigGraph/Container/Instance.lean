import ConfigGraph.Binding.Bind
import ConfigGraph.Container.Selector

/-!
# Instances

What beans are once they are constructed, and what lookups hand out: the same instance, seen as one
of its types, or an item of it. Instances are numbered in the order in which they are made.
-/

namespace ConfigGraph

/-- An instance, or an item of one, as a lookup hands it out. -/
structure Handle where
  /-- The number of the instance or of the item; items without numbers have that of their list. -/
  number : Nat
  /-- How it is shown. -/
  tag : String
  deriving DecidableEq

/-- What a parameter is given. -/
inductive Supplied where
  | bean (h : Handle)
  | beans (hs : List Handle)
  | absent
  | present (s : Supplied)
  | property (b : Bound)
  /-- The container, by the names of its beans. -/
  | container (names : List String)

/-- An item of a list bean. -/
inductive Element where
  | named (text : String)
  | numbered (type : TypeId) (number : Nat) (label : String)

/-- A constructed bean. -/
structure Instance where
  type : TypeId
  number : Nat
  label : String
  elements : List Element
  /-- What its constructor was given. -/
  deps : List Supplied
  /-- The properties bound onto it. -/
  bound : Option Bound
  initialized : Bool

/-- An object's type and number. -/
def numberedTag (type : TypeId) (number : Nat) : String :=
  type.short ++ "#" ++ toString number

namespace Element

def tag : Element → String
  | named text => "elem " ++ text
  | numbered type number _ => numberedTag type number

/-- The items of a list bean from their texts. Items with a type of their own are numbered, from
`next` on. -/
def ofTexts (item : TypeId) (next : Nat) : List String → List Element
  | [] => []
  | text :: rest =>
    match item with
    | .concrete _ => numbered item next text :: ofTexts item (next + 1) rest
    | _ => named text :: ofTexts item next rest

end Element

namespace Instance

/-- How an instance is shown. -/
def tag (i : Instance) : String :=
  match i.type with
  | .list _ => i.type.short ++ "[" ++ ",".intercalate (i.elements.map Element.tag) ++ "]"
  | _ => numberedTag i.type i.number

/-- An instance as events refer to it. -/
def handle (i : Instance) : Handle where
  number := i.number
  tag := i.tag

/-- An instance seen as one of its types. -/
def seenAs (i : Instance) (type : TypeId) : Handle where
  number := i.number
  tag := if type = i.type then i.tag else type.short ++ ":" ++ i.tag

/-- The items of a list. -/
def items (i : Instance) : List Handle :=
  i.elements.map fun e => match e with
    | .named _ => ⟨i.number, e.tag⟩
    | .numbered _ number _ => ⟨number, e.tag⟩

/-- How many numbers the instance and its items have taken. -/
def taken (i : Instance) : Nat :=
  1 + i.elements.countP fun e => match e with
    | .named _ => false
    | .numbered .. => true

end Instance

namespace Export

/-- An instance as an export shows it, provided that it is of the type the export was made for. -/
def cast? (e : Export) (own : TypeId) (i : Instance) : Option Handle :=
  if i.type = own then some (i.seenAs e.type) else none

/-- The items of an instance, provided that it is of the type the export was made for. -/
def castItems? (e : Export) (own : TypeId) (i : Instance) : Option (List Handle) :=
  if i.type = own ∧ own = .list e.type then some i.items else none

end Export

end ConfigGraph
