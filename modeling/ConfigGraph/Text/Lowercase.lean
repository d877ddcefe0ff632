import ConfigGraph.Text.Basic
import ConfigGraph.Text.CaseTable

/-!
# Lowercase

The full lowercase mapping of Unicode without a locale. It is a mapping of single characters
except for two: the capital I with a dot keeps its dot, and a capital sigma becomes the final form
at the end of a word.
-/

namespace ConfigGraph.Text

/-- Whether one of the ranges holds the code point. -/
def inRanges (ranges : List (Nat × Nat)) (n : Nat) : Bool :=
  ranges.any fun (first, last) => first ≤ n && n ≤ last

def CaseRun.holds (r : CaseRun) (n : Nat) : Bool :=
  r.first ≤ n && n ≤ r.last && (n - r.first) % r.step == 0

/-- The simple lowercase form of a character. -/
def lowerChar (c : Char) : Char :=
  let n := c.toNat
  if n < 65 then c
  else match caseRuns.find? (·.holds n) with
    | some r => Char.ofNat (n + r.shift).toNat
    | none => c

/-- Whether the first character that is not case-ignorable has a case. -/
def meetsCased (s : Text) : Bool :=
  match s.dropWhile fun c => inRanges ignorableRanges c.toNat with
  | [] => false
  | c :: _ => inRanges casedRanges c.toNat

/-- Lowers a text; `seen` holds the characters before it, the last one first. -/
def lowerAfter : (seen : Text) → Text → Text
  | _, [] => []
  | seen, c :: rest =>
    let lowered :=
      if c.toNat = 0x3A3 then
        [if meetsCased seen && !meetsCased rest then 'ς' else 'σ']
      else if c.toNat = 0x130 then ['i', '\u0307']
      else [lowerChar c]
    lowered ++ lowerAfter (c :: seen) rest

/-- The lowercase form of a text. -/
def lower (s : Text) : Text :=
  lowerAfter [] s

end ConfigGraph.Text
