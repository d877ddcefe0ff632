import ConfigGraph.Text.Basic

/-!
# Keys

A key is a text such as `app.hosts[1].port`. The root scope is written `$`, and `$.` may stand in
front of any key. A key lies below another one when it continues it after a dot or a bracket.
-/

namespace ConfigGraph.Key

/-- The key without the mark of the root scope. -/
def normalize (key : Text) : Text :=
  match key with
  | ['$'] => []
  | '$' :: '.' :: rest => rest
  | _ => key

/-- A name under a key; the root key and the empty name add nothing. -/
def join (parent child : Text) : Text :=
  match parent, child with
  | [], _ => child
  | _, [] => parent
  | _, _ => parent ++ '.' :: child

/-- The key of a numbered element. -/
def element (key : Text) (index : Nat) : Text :=
  key ++ '[' :: Nat.toDigits 10 index ++ [']']

/-- What follows `key` in `q` after a dot or a bracket, that character included. -/
def tail? (key q : Text) : Option Text :=
  match key.isPrefixOf? q with
  | some ('.' :: rest) => some ('.' :: rest)
  | some ('[' :: rest) => some ('[' :: rest)
  | _ => none

/-- Whether `q` lies below `key`. -/
def isBelow (key q : Text) : Bool :=
  (tail? key q).isSome

/-- Whether one of two keys lies below the other. -/
def related (k q : Text) : Bool :=
  isBelow k q || isBelow q k

end ConfigGraph.Key
