import ConfigGraph.Format.Reader
import ConfigGraph.Format.Toml.Tree
import ConfigGraph.Number.Literal

/-!
# TOML scalars

Truth values and numbers. What starts with a digit or a sign is a floating-point number where it
looks like one, else an integer.
-/

namespace ConfigGraph.Toml

open ConfigGraph.Text (isDigit)
open Number (IntType binary64)

/-! ## Digits -/

/-- Digits after a first one, with single underscores between them; these are left out. -/
def moreDigits (ok : Char → Bool) : Text → Option (Text × Text)
  | '_' :: c :: rest =>
    if ok c then (moreDigits ok rest).map fun (ds, rest) => (c :: ds, rest) else none
  | ['_'] => none
  | c :: rest =>
    if ok c then (moreDigits ok rest).map fun (ds, rest) => (c :: ds, rest)
    else some ([], c :: rest)
  | [] => some ([], [])

/-- Digits with single underscores between them. -/
def someDigits (ok : Char → Bool) : Text → Option (Text × Text)
  | c :: rest =>
    if ok c then (moreDigits ok rest).map fun (ds, rest) => (c :: ds, rest) else none
  | [] => none

/-- An optional sign, as it is written. -/
def sign : Text → Text × Text
  | '+' :: rest => (['+'], rest)
  | '-' :: rest => (['-'], rest)
  | s => ([], s)

/-- A decimal integer with an optional sign; a zero at its front stands alone. -/
def decimal? (s : Text) : Option (Text × Text) :=
  let (mark, s) := sign s
  match s with
  | '0' :: rest => some (mark ++ ['0'], rest)
  | _ => (someDigits isDigit s).map fun (ds, rest) => (mark ++ ds, rest)

/-! ## Numbers -/

/-- The exponent part of a number. -/
def exponent? (s : Text) : Option (Text × Text) :=
  match s with
  | 'e' :: rest | 'E' :: rest => do
    let (mark, rest) := sign rest
    let (ds, rest) ← someDigits isDigit rest
    return (['e'] ++ mark ++ ds, rest)
  | _ => some ([], s)

/-- The words for numbers that have no digits. -/
def special (s : Text) : Attempt Toml :=
  let (mark, body) := sign s
  match Text.afterWord? "inf" body, Text.afterWord? "nan" body with
  | some rest, _ => .done (.float (.infinite (mark == ['-']))) rest
  | _, some rest => .done (.float .nan) rest
  | _, _ => .other

/-- The floating-point number with these digits; a positive one must not overflow. -/
def floatOf (literal rest : Text) : Attempt Toml :=
  match binary64.read? literal with
  | some x => if x = .infinite false then .malformed else .done (.float x) rest
  | none => .malformed

/-- A floating-point number. -/
def floating (s : Text) : Attempt Toml :=
  match decimal? s with
  | some (whole, '.' :: rest) =>
    let tail := do
      let (ds, rest) ← someDigits isDigit rest
      let (e, rest) ← exponent? rest
      return (ds ++ e, rest)
    match tail with
    | some (tail, rest) => floatOf (whole ++ ['.'] ++ tail) rest
    | none => .malformed
  | some (whole, c :: rest) =>
    if c = 'e' || c = 'E' then
      match exponent? (c :: rest) with
      | some (e, rest) => floatOf (whole ++ e) rest
      | none => .malformed
    else .other
  | some (_, []) => .other
  | none => special s

/-- An integer of base sixteen, eight or two. -/
def based? (base : Nat) (s : Text) : Option (Toml × Text) := do
  let (ds, rest) ← someDigits (fun c => (Text.digit? base c).isSome) s
  let n : Int := ds.foldl (fun n c => n * base + (Text.digit? base c).getD 0) 0
  if IntType.i64.holds n then some (.integer n, rest) else none

/-- An integer. -/
def integer? (s : Text) : Option (Toml × Text) :=
  match s with
  | '0' :: 'x' :: rest => based? 16 rest
  | '0' :: 'o' :: rest => based? 8 rest
  | '0' :: 'b' :: rest => based? 2 rest
  | _ => do
    let (ds, rest) ← decimal? s
    let n ← IntType.i64.read? ds
    return (.integer n, rest)

/-- A number. -/
def number? (s : Text) : Option (Toml × Text) :=
  match floating s with
  | .done v rest => some (v, rest)
  | .malformed => none
  | .other => integer? s

/-- A word that stands for a value. -/
def word? (s : Text) : Option (Toml × Text) :=
  match Text.afterWord? "true" s, Text.afterWord? "false" s with
  | some rest, _ => some (.boolean true, rest)
  | _, some rest => some (.boolean false, rest)
  | _, _ =>
    match special s with
    | .done v rest => some (v, rest)
    | _ => none

end ConfigGraph.Toml
