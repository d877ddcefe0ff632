import ConfigGraph.Value.Basic

/-!
# Numbers that are kept as text

A number of a document or of a serialized value that is no 64-bit integer is kept as the text a
JSON document has for it.
-/

namespace ConfigGraph.Value

open Number (Layout)

/-- JSON numbers: without an exponent from `0.00001` to below `10 ^ 16`, whole numbers with `.0`. -/
def jsonDouble : Layout where
  tie := .even
  positional lead := -5 ≤ lead && lead ≤ 15
  pointZero := true
  nan := ['n', 'u', 'l', 'l']
  infinity := ['n', 'u', 'l', 'l']

/-- JSON numbers of single precision: without an exponent from `0.000001` to below `10 ^ 13`. -/
def jsonSingle : Layout :=
  { jsonDouble with positional := fun lead => -6 ≤ lead && lead ≤ 12 }

end ConfigGraph.Value
