import ConfigGraph.Number.IntType
import ConfigGraph.Number.Literal
import ConfigGraph.Text.Blank

/-!
# Durations

A duration is a whole number of seconds, or a sequence of numbers with units such as `1h30m`,
which are added up in nanoseconds in double precision.
-/

namespace ConfigGraph.Duration

open Number (Binary IntType binary64)

/-- The nanoseconds of a unit. -/
def unit? (unit : Text) : Option Nat :=
  match unit with
  | ['n', 's'] => some 1
  | ['u', 's'] | ['µ', 's'] => some 1000
  | ['m', 's'] => some 1000000
  | ['s'] => some 1000000000
  | ['m'] => some 60000000000
  | ['h'] => some 3600000000000
  | ['d'] => some 86400000000000
  | _ => none

/-- The characters numbers consist of; a unit ends before the next of them. -/
def inNumber (c : Char) : Bool :=
  Text.isDigit c || c == '.'

/-- The nanoseconds of the components of a text, added to those before. -/
def total? (before : Binary) (s : Text) : Option Binary :=
  if s.isEmpty then some before
  else
    let number := s.takeWhile inNumber
    let after := s.dropWhile inNumber
    let rest := after.dropWhile (!inNumber ·)
    if hn : number.isEmpty then none
    else
      match binary64.read? number, unit? (after.takeWhile (!inNumber ·)) with
      | some x, some scale =>
        have : rest.length < s.length := by
          have h₁ := congrArg List.length (List.takeWhile_append_dropWhile (p := inNumber) (l := s))
          have h₂ := (List.dropWhile_sublist (fun c => !inNumber c) (l := after)).length_le
          have h₃ := List.length_pos_iff.2 (mt List.isEmpty_iff.2 hn)
          rw [List.length_append] at h₁
          show (after.dropWhile _).length < _
          have h₄ : number.length = (s.takeWhile inNumber).length := rfl
          have h₅ : after.length = (s.dropWhile inNumber).length := rfl
          omega
        total? (binary64.add before (binary64.mul x (binary64.ofNat scale))) rest
      | _, _ => none
termination_by s.length

/-- The nanoseconds of a duration. Those that come from components are at most `2 ^ 64 - 1`. -/
def read? (s : Text) : Option Nat :=
  let s := Text.trim s
  match IntType.u64.read? s with
  | some seconds => some (seconds.toNat * 1000000000)
  | none =>
    if s.isEmpty then none
    else (total? (binary64.ofNat 0) s).map (·.clampToNat IntType.u64.greatest.toNat)

end ConfigGraph.Duration
