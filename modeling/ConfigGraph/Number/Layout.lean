import ConfigGraph.Number.Decimal
import ConfigGraph.Number.Shortest

/-!
# Layouts of floating-point numbers

How the shortest digits of a number are set: with a point among them, or in scientific form. The
layouts in use are values of one record.
-/

namespace ConfigGraph.Number

/-- The decisions that turn digits into text. -/
structure Layout where
  tie : Tie
  /-- Whether a number whose first digit has this exponent is written without an exponent. -/
  positional : Int → Bool
  /-- Whether a whole number keeps a point and a zero. -/
  pointZero : Bool
  nan : Text
  infinity : Text

/-- Digits with a point where the exponent of the first digit puts it. -/
def Layout.point (l : Layout) (ds : Text) (lead : Int) : Text :=
  if lead < 0 then ['0', '.'] ++ List.replicate (-lead - 1).toNat '0' ++ ds
  else
    let whole := (lead + 1).toNat
    if ds.length ≤ whole then
      ds ++ List.replicate (whole - ds.length) '0' ++ (if l.pointZero then ['.', '0'] else [])
    else ds.take whole ++ ['.'] ++ ds.drop whole

/-- Digits with a point after the first one and the exponent of that digit. -/
def scientific (ds : Text) (lead : Int) : Text :=
  let fraction := ds.drop 1
  ds.take 1 ++ (if fraction.isEmpty then [] else '.' :: fraction) ++
    ['e', if lead < 0 then '-' else '+'] ++ digits lead.natAbs

/-- The text of a number in a layout. -/
def Layout.write (l : Layout) (f : BinaryFormat) : Binary → Text
  | .nan => l.nan
  | .infinite s => (if s then ['-'] else []) ++ l.infinity
  | .finite s m e =>
    let body :=
      if m = 0 then l.point ['0'] 0
      else
        let (d, x) := f.shortest l.tie m e
        let all := digits d
        let lead := x + (all.length - 1 : Nat)
        let ds := (all.reverse.dropWhile (· == '0')).reverse
        if l.positional lead then l.point ds lead else scientific ds lead
    (if s then ['-'] else []) ++ body

/-- Plain text: every digit in its place, no point after a whole number. -/
def plain : Layout where
  tie := .up
  positional _ := true
  pointZero := false
  nan := ['N', 'a', 'N']
  infinity := ['i', 'n', 'f']

end ConfigGraph.Number
