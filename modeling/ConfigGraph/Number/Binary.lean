/-!
# Binary floating-point numbers

A finite number is a whole number times a power of two. Operations are exact on rational numbers
and rounded once, to the nearest number of the format and to the even one of two.
-/

namespace ConfigGraph.Number

/-- A binary format: the finite numbers are `m · 2 ^ e` with `m < 2 ^ precision` and
`least ≤ e ≤ greatest`; they are stored in `width` bits. -/
structure BinaryFormat where
  precision : Nat
  least : Int
  greatest : Int
  width : Nat

/-- Double precision. -/
def binary64 : BinaryFormat := ⟨53, -1074, 971, 64⟩

/-- Single precision. -/
def binary32 : BinaryFormat := ⟨24, -149, 104, 32⟩

/-- A floating-point number of some format. -/
inductive Binary where
  | nan
  | infinite (negative : Bool)
  /-- The number `mantissa · 2 ^ exponent`, or its opposite. -/
  | finite (negative : Bool) (mantissa : Nat) (exponent : Int)
  deriving DecidableEq

/-- The numerator and the denominator of `m · 2 ^ e`. -/
def scaled (m : Nat) (e : Int) : Nat × Nat :=
  (m * Nat.pow 2 e.toNat, Nat.pow 2 (-e).toNat)

/-- A quotient rounded to the nearest whole number, a half to the even one. -/
def roundDiv (num den : Nat) : Nat :=
  let q := num / den
  let r := num % den
  if 2 * r < den then q
  else if den < 2 * r then q + 1
  else q + q % 2

/-- The greatest `k` with `2 ^ k ≤ num / den`, for a positive quotient. -/
def floorLog2 (num den : Nat) : Int :=
  let k : Int := (num.log2 : Int) - den.log2
  if den * Nat.pow 2 k.toNat ≤ num * Nat.pow 2 (-k).toNat then k else k - 1

namespace BinaryFormat

/-- The number of the format nearest to a quotient, with a sign. -/
def round (f : BinaryFormat) (negative : Bool) (num den : Nat) : Binary :=
  if num = 0 then .finite negative 0 f.least
  else
    let wanted := floorLog2 num den - (f.precision - 1 : Nat)
    let e := if wanted < f.least then f.least else wanted
    let m := roundDiv (num * Nat.pow 2 (-e).toNat) (den * Nat.pow 2 e.toNat)
    let (m, e) :=
      if m = Nat.pow 2 f.precision then (Nat.pow 2 (f.precision - 1), e + 1) else (m, e)
    if f.greatest < e then .infinite negative else .finite negative m e

/-- The number of the format nearest to `n · 10 ^ e`. Beyond `10 ^ 400` and below `10 ^ -400`,
where every format here overflows or vanishes, the power of ten is not computed. -/
def ofDecimal (f : BinaryFormat) (negative : Bool) (n : Nat) (e : Int) : Binary :=
  let lead : Int := e + n.log2 / 3
  if n = 0 then .finite negative 0 f.least
  else if 400 < e then .infinite negative
  else if lead < -400 then .finite negative 0 f.least
  else f.round negative (n * Nat.pow 10 e.toNat) (Nat.pow 10 (-e).toNat)

/-- A whole number in the format. -/
def ofNat (f : BinaryFormat) (n : Nat) : Binary :=
  f.round false n 1

/-- A number of another format in this one. -/
def convert (f : BinaryFormat) : Binary → Binary
  | .nan => .nan
  | .infinite s => .infinite s
  | .finite s m e => let (num, den) := scaled m e; f.round s num den

def mul (f : BinaryFormat) : Binary → Binary → Binary
  | .nan, _ | _, .nan => .nan
  | .infinite s, .infinite t => .infinite (s != t)
  | .infinite s, .finite t m _ => if m = 0 then .nan else .infinite (s != t)
  | .finite s m _, .infinite t => if m = 0 then .nan else .infinite (s != t)
  | .finite s m d, .finite t n e =>
    let (num, den) := scaled (m * n) (d + e)
    f.round (s != t) num den

def div (f : BinaryFormat) : Binary → Binary → Binary
  | .nan, _ | _, .nan => .nan
  | .infinite _, .infinite _ => .nan
  | .infinite s, .finite t _ _ => .infinite (s != t)
  | .finite s _ _, .infinite t => .finite (s != t) 0 f.least
  | .finite s m d, .finite t n e =>
    if n = 0 then (if m = 0 then .nan else .infinite (s != t))
    else
      let (num, den) := scaled m (d - e)
      f.round (s != t) num (den * n)

/-- A signed whole number from a sign and a magnitude. -/
def signedInt (negative : Bool) (n : Nat) : Int :=
  if negative then -n else n

def add (f : BinaryFormat) : Binary → Binary → Binary
  | .nan, _ | _, .nan => .nan
  | .infinite s, .infinite t => if s = t then .infinite s else .nan
  | .infinite s, .finite .. => .infinite s
  | .finite .., .infinite t => .infinite t
  | .finite s m d, .finite t n e =>
    let low := if d < e then d else e
    let sum :=
      signedInt s (m * Nat.pow 2 (d - low).toNat) + signedInt t (n * Nat.pow 2 (e - low).toNat)
    let (num, den) := scaled sum.natAbs low
    f.round (if sum = 0 then s && t else sum < 0) num den

/-- The bits that store a number; every NaN is the quiet one. -/
def encode (f : BinaryFormat) (x : Binary) : Nat :=
  let hidden := Nat.pow 2 (f.precision - 1)
  let top := (f.greatest - f.least + 2).toNat * hidden
  let sign (s : Bool) := if s then Nat.pow 2 (f.width - 1) else 0
  match x with
  | .nan => top + hidden / 2
  | .infinite s => sign s + top
  | .finite s m e =>
    sign s + if m < hidden then m else (e - f.least + 1).toNat * hidden + (m - hidden)

end BinaryFormat

namespace Binary

/-- The whole part, between `0` and `max`; a NaN counts as `0`. -/
def clampToNat (max : Nat) : Binary → Nat
  | .nan => 0
  | .infinite s => if s then 0 else max
  | .finite s m e =>
    let (num, den) := scaled m e
    if s then 0 else if num / den < max then num / den else max

def isInfinite : Binary → Bool
  | infinite _ => true
  | _ => false

def isFinite : Binary → Bool
  | finite .. => true
  | _ => false

def isZero : Binary → Bool
  | finite _ m _ => m == 0
  | _ => false

/-- The number with this sign. -/
def withSign (negative : Bool) : Binary → Binary
  | nan => nan
  | infinite _ => infinite negative
  | finite _ m e => finite negative m e

end Binary

end ConfigGraph.Number
