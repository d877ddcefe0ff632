import ConfigGraph.Format.Json.Tree
import ConfigGraph.Number.Decimal

/-!
# JSON numbers

Integers of 64 bits are exact. Any other number is read by collecting digits in a 64-bit word and
scaling that word by one power of ten, so its last digit may differ from the nearest one.
-/

namespace ConfigGraph.Json

open ConfigGraph.Text (isDigit digit)
open Number (Binary IntType binary64)

/-- Digits collected so far: a word, the power of ten it stands at, and whether it is full. -/
structure Digits where
  word : Nat
  exponent : Int
  full : Bool

namespace Digits

/-- Whether a digit still fits. -/
def fits (d : Digits) (c : Char) : Bool :=
  IntType.u64.holds (d.word * 10 + digit c)

/-- The next digit before the point; once the word is full only the magnitude is counted. -/
def pushWhole (d : Digits) (c : Char) : Digits :=
  if d.full || !d.fits c then { d with exponent := d.exponent + 1, full := true }
  else { d with word := d.word * 10 + digit c }

/-- The next digit after the point; once the word is full all others are dropped. -/
def pushFraction (d : Digits) (c : Char) : Digits :=
  if d.full || !d.fits c then { d with full := true }
  else { d with word := d.word * 10 + digit c, exponent := d.exponent - 1 }

end Digits

/-- Scales a number by a power of ten, where the powers up to `308` are taken in one step. -/
def scale (x : Binary) (e : Int) : Option Binary :=
  let power (n : Nat) := binary64.ofDecimal false 1 n
  if 308 < e then if x.isZero then some x else none
  else if 0 ≤ e then
    let y := binary64.mul x (power e.toNat)
    if y.isInfinite then none else some y
  else if -308 ≤ e then some (binary64.div x (power (-e).toNat))
  else if x.isZero then some x
  else scale (binary64.div x (power 308)) (e + 308)
termination_by (-e).toNat

/-- The number of the collected digits with an exponent. -/
def float? (negative : Bool) (d : Digits) (e : Int) : Option Json :=
  (scale (binary64.ofNat d.word) (d.exponent + e)).map fun x => .ofFloat (x.withSign negative)

/-- Reads the exponent part of a number after its mark. -/
def exponent? (s : Text) : Option (Int × Text) :=
  let (negative, s) := match s with
    | '-' :: rest => (true, rest)
    | '+' :: rest => (false, rest)
    | _ => (false, s)
  let ds := s.takeWhile isDigit
  if ds.isEmpty then none
  else
    let n : Int := Number.ofDigits ds
    some (if negative then -n else n, s.dropWhile isDigit)

/-- Reads what may follow the digits of a number that is no integer. -/
def finish? (negative : Bool) (d : Digits) (s : Text) : Option (Json × Text) :=
  match s with
  | 'e' :: rest | 'E' :: rest => do
    let (e, rest) ← exponent? rest
    return (← float? negative d e, rest)
  | _ => do return (← float? negative d 0, s)

/-- The tree of a number without a point or an exponent. -/
def integer? (negative : Bool) (d : Digits) : Option Json :=
  if d.full then float? negative d 0
  else if negative && (d.word == 0 || !IntType.i64.holds (-d.word)) then float? true d 0
  else some (.integer (if negative then -d.word else d.word))

/-- Reads a number. -/
def number? (s : Text) : Option (Json × Text) :=
  let (negative, s) := match s with
    | '-' :: rest => (true, rest)
    | _ => (false, s)
  let whole := s.takeWhile isDigit
  let rest := s.dropWhile isDigit
  if whole.isEmpty || (whole.head? == some '0' && 1 < whole.length) then none
  else
    let d := whole.foldl Digits.pushWhole ⟨0, 0, false⟩
    match rest with
    | '.' :: rest =>
      let fraction := rest.takeWhile isDigit
      if fraction.isEmpty then none
      else
        finish? negative (fraction.foldl Digits.pushFraction { d with full := false })
          (rest.dropWhile isDigit)
    | 'e' :: _ | 'E' :: _ => finish? negative d rest
    | _ => (integer? negative d).map (·, rest)

end ConfigGraph.Json
