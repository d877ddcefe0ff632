import ConfigGraph.Number.IntType
import ConfigGraph.Value.Basic

/-!
# Paths

The way from a tree to one of its leaves, read off a key. A bracket that is malformed, or whose
number is not below a limit, is part of a name, so no key can ask for a long sequence.
-/

namespace ConfigGraph

open Number (IntType)

/-- A step from a tree to a part of it. -/
inductive Segment where
  | name (n : Text)
  | index (i : Nat)

namespace Path

/-- The numbers in brackets that `s` consists of; from the first malformed one on, or the first
that is not below `limit`, the rest is one name. -/
def brackets (limit : Nat) : Text → List Segment
  | [] => []
  | '[' :: inner =>
    match h : Text.cutAt? ']' inner with
    | some (numeral, rest) =>
      match IntType.usize.read? numeral with
      | some i =>
        if i < limit then
          have := Text.length_of_cutAt? h
          .index i.toNat :: brackets limit rest
        else [.name ('[' :: inner)]
      | none => [.name ('[' :: inner)]
    | none => [.name ('[' :: inner)]
  | s => [.name s]
termination_by s => s.length

/-- The segments of the part of a path between two dots. -/
def part (limit : Nat) (s : Text) : List Segment :=
  let name := s.takeWhile (· != '[')
  (if name.isEmpty then [] else [.name name]) ++ brackets limit (s.dropWhile (· != '['))

/-- The segments of a path. -/
def split (limit : Nat) (path : Text) : List Segment :=
  (List.splitOn '.' path).flatMap (part limit)

end Path

namespace Value

/-- The entries of a map; anything else gives way to an empty map. -/
def entries : Value → List (Text × Value)
  | map es => es
  | _ => []

/-- The items of a sequence; anything else gives way to an empty sequence. -/
def items : Value → List Value
  | seq vs => vs
  | _ => []

/-- The items with nulls behind them, so that there is one with the number `i`. -/
def padded (i : Nat) (vs : List Value) : List Value :=
  vs ++ List.replicate (i + 1 - vs.length) null

/-- The tree with a leaf at the end of a path. A part of another kind on the way is replaced. -/
def insert (leaf : Value) : (path : List Segment) → Value → Value
  | [], _ => leaf
  | .name n :: path, v => map (Entries.alter n (fun c => insert leaf path (c.getD null)) v.entries)
  | .index i :: path, v => seq ((padded i v.items).modify i (insert leaf path))

end Value

end ConfigGraph
