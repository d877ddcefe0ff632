import ConfigGraph.Text.Basic

/-!
# Decimal numerals

Whole numbers read from and written in base ten.
-/

namespace ConfigGraph.Number

open ConfigGraph.Text (isDigit digit)

/-- The number that a text of digits stands for. -/
def ofDigits (s : Text) : Nat :=
  s.foldl (fun n c => n * 10 + digit c) 0

/-- The digits of a number, without leading zeros. -/
def digits (n : Nat) : Text :=
  Nat.toDigits 10 n

/-- A text that consists of digits, one at least. -/
def isNumeral (s : Text) : Bool :=
  !s.isEmpty && s.all isDigit

/-- The number that a non-empty text of digits stands for. -/
def readNat? (s : Text) : Option Nat :=
  if isNumeral s then some (ofDigits s) else none

/-- The canonical numeral of a whole number. -/
def writeInt : Int → Text
  | .ofNat n => digits n
  | .negSucc n => '-' :: digits (n + 1)

end ConfigGraph.Number
