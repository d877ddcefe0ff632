import ConfigGraph.Container.Session
import ConfigGraph.Text.Quoted

/-!
# Descriptions

One line about a bean or about a builder with all its beans, for logs.

An application numbers its types as it likes. Where a line shows a type's number, the numbering is
a parameter (`identity`).
-/

namespace ConfigGraph

/-- A string between quotes. -/
def quotedName (s : String) : String :=
  (Text.quoted s.toList).str

/-- Items between brackets. -/
def bracketed (items : List String) : String :=
  "[" ++ ", ".intercalate items ++ "]"

/-- The number of a type in base sixteen, filled up with zeros to 32 digits. -/
def identityText (n : Nat) : String :=
  let digits := Text.hexDigits n
  let zeros := List.replicate (32 - digits.length) '0'
  "0x" ++ Text.str (zeros ++ digits)

/-- The line about a selector shows the number of its type. -/
def Selector.describe (identity : TypeId → Nat) : Selector → String
  | inferred => "Inferred"
  | named name => "Name(" ++ quotedName name ++ ")"
  | typed type =>
    "Type \x7b id: TypeId(" ++ identityText (identity type) ++ "), name: " ++
      quotedName type.name ++ " \x7d"

def Argument.describe (identity : TypeId → Nat) : Argument → String
  | bean s => "Bean(" ++ s.describe identity ++ ")"
  | collect ss => "Collect(" ++ bracketed (ss.map (Selector.describe identity)) ++ ")"
  | value tag => "Value(" ++ quotedName tag ++ ")"

def Export.describe (e : Export) : String :=
  "Export \x7b type_name: " ++ quotedName e.type.name ++ ", elements: " ++
    toString e.elements ++ " \x7d"

def Profile.describe (p : Profile) : String :=
  "BeanMeta \x7b name: " ++ quotedName p.name ++ ", type_name: " ++ quotedName p.type.name ++
    ", exports: " ++ bracketed (p.exports.map Export.describe) ++ " \x7d"

def Bean.describe (identity : TypeId → Nat) (b : Bean) : String :=
  "Bean \x7b meta: " ++ b.profile.describe ++ ", args: " ++
    bracketed (b.args.map (Argument.describe identity)) ++ ", injectors: " ++
    toString b.injectors.length ++ ", links: " ++ toString b.links.length ++ ", .. \x7d"

def Definition.describe (d : Definition) : String :=
  "Definition \x7b meta: " ++ d.bean.profile.describe ++ ", state: Unwired, .. \x7d"

def Store.describe (s : Store) : String :=
  let entries := s.entries.map fun (k, t) => (Text.quoted k).str ++ ": " ++ (Text.quoted t).str
  "Properties \x7b entries: \x7b" ++ ", ".intercalate entries ++ "\x7d \x7d"

def Builder.describe (b : Builder) : String :=
  "ContainerBuilder \x7b defs: " ++ bracketed (b.definitions.map Definition.describe) ++
    ", properties: " ++ b.store.describe ++ " \x7d"

end ConfigGraph
