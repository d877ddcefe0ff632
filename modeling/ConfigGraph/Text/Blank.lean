import ConfigGraph.Text.Basic

/-!
# White space

The characters with the Unicode property `White_Space`, and texts without them at either end.
-/

namespace ConfigGraph.Text

/-- White space in the sense of Unicode. -/
def isBlank (c : Char) : Bool :=
  let n := c.toNat
  (9 ≤ n && n ≤ 13) || n == 0x20 || n == 0x85 || n == 0xA0 || n == 0x1680 ||
    (0x2000 ≤ n && n ≤ 0x200A) || n == 0x2028 || n == 0x2029 || n == 0x202F || n == 0x205F ||
    n == 0x3000

/-- A text without the white space at its end. -/
def trimEnd (s : Text) : Text :=
  (s.reverse.dropWhile isBlank).reverse

/-- A text without the white space around it. -/
def trim (s : Text) : Text :=
  trimEnd (s.dropWhile isBlank)

end ConfigGraph.Text
