import ConfigGraph.Number.Binary

/-!
# Shortest decimal digits

The decimal number with the fewest digits that reads back as a given floating-point number, and of
those the nearest one.
-/

namespace ConfigGraph.Number

/-- Which of two equally near neighbours is taken. -/
inductive Tie where
  | up
  | even

/-- The open or closed interval of the numbers that round to `m · 2 ^ e`, with the number itself;
all three in units of `2 ^ (e - 2)`. -/
structure RoundingInterval where
  low : Nat
  value : Nat
  high : Nat
  closed : Bool

/-- Below a power of two the numbers lie twice as close. -/
def BinaryFormat.interval (f : BinaryFormat) (m : Nat) (e : Int) : RoundingInterval where
  low := if m = Nat.pow 2 (f.precision - 1) ∧ f.least < e then 4 * m - 1 else 4 * m - 2
  value := 4 * m
  high := 4 * m + 2
  closed := m % 2 = 0

/-- The multiple of `10 ^ x` inside the interval that is nearest to its value, as a multiplier.
One of the two multiples beside the value is inside whenever any multiple is. -/
def RoundingInterval.onGrid (i : RoundingInterval) (unit : Int) (tie : Tie) (x : Int) :
    Option Nat :=
  let (num, den) := scaled 1 unit
  let one := num * Nat.pow 10 (-x).toNat
  let grid := den * Nat.pow 10 x.toNat
  let below := i.value * one / grid
  let inside (a : Nat) : Bool :=
    let a := a * grid
    if i.closed then i.low * one ≤ a && a ≤ i.high * one
    else i.low * one < a && a < i.high * one
  let down := i.value * one - below * grid
  let up := (below + 1) * grid - i.value * one
  let upper : Bool := match tie with
    | .up => up ≤ down
    | .even => up < down || (up == down && below % 2 == 1)
  match inside below, inside (below + 1) with
  | true, true => some (if upper then below + 1 else below)
  | true, false => some below
  | false, true => some (below + 1)
  | false, false => none

/-- The multiplier and the exponent of the shortest decimal for `m · 2 ^ e`, where `m` is not
zero. The first grid tried has no point between zero and the interval, and every format here has a
point of the last one inside. -/
def BinaryFormat.shortest (f : BinaryFormat) (tie : Tie) (m : Nat) (e : Int) : Nat × Int :=
  let top := (e + m.log2 + 1) * 30103 / 100000 + 1
  let found := (List.range 24).findSome? fun (i : Nat) =>
    let x := top - (i : Nat)
    ((f.interval m e).onGrid (e - 2) tie x).map (·, x)
  found.getD (0, 0)

end ConfigGraph.Number
