import ConfigGraph.Text.Lowercase
import ConfigGraph.Text.HiddenTable

/-!
# Quoted text

A text between double quotes in which quotes, backslashes and characters that do not show are
escaped, so that the quoted form can be read off a log line.
-/

namespace ConfigGraph.Text

/-- The digits of a number in base sixteen, without leading zeros. -/
def hexDigits (n : Nat) : Text :=
  Nat.toDigits 16 n

/-- How a character stands inside quotes. -/
def quotedChar (c : Char) : Text :=
  match c with
  | '"' => ['\\', '"']
  | '\\' => ['\\', '\\']
  | '\n' => ['\\', 'n']
  | '\r' => ['\\', 'r']
  | '\t' => ['\\', 't']
  | _ =>
    if c.toNat = 0 then ['\\', '0']
    else if inRanges hiddenRanges c.toNat then
      ['\\', 'u', '\x7b'] ++ hexDigits c.toNat ++ ['\x7d']
    else [c]

/-- The text between quotes. -/
def quoted (s : Text) : Text :=
  '"' :: s.flatMap quotedChar ++ ['"']

end ConfigGraph.Text
