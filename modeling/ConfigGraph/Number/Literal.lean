import ConfigGraph.Number.Binary
import ConfigGraph.Number.Decimal

/-!
# Floating-point literals

A literal is an optional sign before digits with an optional point and an optional exponent, or
before one of the words for an infinity or no number. It is read exactly and rounded once.
-/

namespace ConfigGraph.Number

open ConfigGraph.Text (isDigit asciiLower)

/-- An unsigned decimal number `value · 10 ^ exponent`. -/
structure Decimal where
  value : Nat
  exponent : Int

/-- The exponent part of a literal: nothing, or a mark, an optional sign and digits. -/
def readExponent? : Text → Option Int
  | [] => some 0
  | mark :: rest =>
    if mark = 'e' || mark = 'E' then
      match rest with
      | '-' :: digits => (readNat? digits).map fun n => -(n : Int)
      | '+' :: digits => (readNat? digits).map Int.ofNat
      | digits => (readNat? digits).map Int.ofNat
    else none

/-- Digits with an optional point somewhere, one digit at least, and an optional exponent. -/
def readDecimal? (s : Text) : Option Decimal :=
  let whole := s.takeWhile isDigit
  let rest := s.dropWhile isDigit
  let (fraction, rest) := match rest with
    | '.' :: rest => (rest.takeWhile isDigit, rest.dropWhile isDigit)
    | _ => ([], rest)
  if whole.isEmpty && fraction.isEmpty then none
  else (readExponent? rest).map fun e =>
    ⟨ofDigits (whole ++ fraction), e - fraction.length⟩

/-- The number of a format nearest to a literal. -/
def BinaryFormat.read? (f : BinaryFormat) (s : Text) : Option Binary :=
  let (negative, body) := match s with
    | '-' :: rest => (true, rest)
    | '+' :: rest => (false, rest)
    | _ => (false, s)
  let word := asciiLower body
  if word = ['n', 'a', 'n'] then some .nan
  else if word = ['i', 'n', 'f'] || word = ['i', 'n', 'f', 'i', 'n', 'i', 't', 'y'] then
    some (.infinite negative)
  else (readDecimal? body).map fun d => f.ofDecimal negative d.value d.exponent

end ConfigGraph.Number
