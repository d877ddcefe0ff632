import ConfigGraph.Format.Reader
import ConfigGraph.Number.Decimal

/-!
# TOML dates and times

A date, a time of day, or a date with a time, which may name its distance from universal time. All
are kept in canonical form: a `T` before the time, a fraction without zeros at its end, and `Z` or
a sign with hours and minutes as the distance.

A document holds them bare (`dateTime`), where the first character that does not belong to them
ends them. A text that stands for one (`dateTimeOf?`) holds nothing else.
-/

namespace ConfigGraph.Toml

open ConfigGraph.Text (isDigit)

/-! ## Parts -/

/-- Exactly `n` digits. -/
def fixed? (n : Nat) (s : Text) : Option (Text × Text) :=
  let ds := s.take n
  if ds.length = n && ds.all isDigit then some (ds, s.drop n) else none

/-- Exactly two digits whose number lies in a range. -/
def two? (least greatest : Nat) (s : Text) : Option (Text × Text) :=
  (fixed? 2 s).filter fun (ds, _) => least ≤ Number.ofDigits ds && Number.ofDigits ds ≤ greatest

/-- Two digits in a range after a mark. -/
def marked? (mark : Char) (least greatest : Nat) : Text → Option (Text × Text)
  | c :: rest => if c = mark then two? least greatest rest else none
  | [] => none

/-- The number of days of a month. -/
def daysIn (year month : Nat) : Nat :=
  if month = 2 then
    if year % 4 = 0 && (year % 100 != 0 || year % 400 = 0) then 29 else 28
  else if month = 4 || month = 6 || month = 9 || month = 11 then 30
  else 31

/-- A date. After a year and a hyphen nothing else may follow. -/
def date (s : Text) : Attempt Text :=
  match fixed? 4 s with
  | some (year, '-' :: rest) =>
    match two? 1 12 rest with
    | some (month, rest) =>
      match marked? '-' 1 (daysIn (Number.ofDigits year) (Number.ofDigits month)) rest with
      | some (day, rest) => .done (year ++ ['-'] ++ month ++ ['-'] ++ day) rest
      | none => .malformed
    | none => .malformed
  | _ => .other

/-- Whether a character joins a date and a time. -/
def joinsTime (c : Char) : Bool :=
  c == 'T' || c == 't' || c == ' '

/-- The fraction of a second: nine digits count, and zeros at the end are left out. -/
def fraction (s : Text) : Text × Text :=
  match s with
  | '.' :: rest =>
    let ds := rest.takeWhile isDigit
    let kept := ((ds.take 9).reverse.dropWhile (· == '0')).reverse
    if ds.isEmpty then ([], s)
    else ((if kept.isEmpty then [] else '.' :: kept), rest.dropWhile isDigit)
  | _ => ([], s)

/-- A time of day. A second of 60 is a leap second. -/
def clock? (s : Text) : Option (Text × Text) := do
  let (hour, rest) ← two? 0 23 s
  let (minute, rest) ← marked? ':' 0 59 rest
  let (second, rest) ← marked? ':' 0 60 rest
  let (part, rest) := fraction rest
  return (hour ++ [':'] ++ minute ++ [':'] ++ second ++ part, rest)

/-- The hours and minutes after a sign; without any distance the sign is a plus. -/
def distance? (sign : Char) (s : Text) : Option (Text × Text) := do
  let (hour, rest) ← two? 0 23 s
  let (minute, rest) ← marked? ':' 0 59 rest
  let isZero := Number.ofDigits hour = 0 && Number.ofDigits minute = 0
  return ((if isZero then '+' else sign) :: hour ++ [':'] ++ minute, rest)

/-- The distance from universal time. After a sign nothing else may follow. -/
def offset : Text → Attempt Text
  | c :: rest =>
    if c = 'Z' || c = 'z' then .done ['Z'] rest
    else if c = '+' || c = '-' then
      match distance? c rest with
      | some (distance, rest) => .done distance rest
      | none => .malformed
    else .other
  | [] => .other

/-! ## Dates and times -/

/-- A time of day. After an hour and a colon nothing else may follow. -/
def time (s : Text) : Attempt Text :=
  match two? 0 23 s with
  | some (_, ':' :: _) =>
    match clock? s with
    | some (clock, rest) => .done clock rest
    | none => .malformed
  | _ => .other

/-- What may follow a date: a time of that day, with an optional offset. -/
def timeOfDate (day s : Text) : Attempt Text :=
  match s with
  | [] => .done day s
  | c :: rest =>
    if joinsTime c then
      match time rest with
      | .done clock rest =>
        match offset rest with
        | .done distance rest => .done (day ++ ['T'] ++ clock ++ distance) rest
        | .other => .done (day ++ ['T'] ++ clock) rest
        | .malformed => .malformed
      | .other => .done day s
      | .malformed => .malformed
    else .done day s

/-- A date, a time or both. -/
def dateTime (s : Text) : Attempt Text :=
  match date s with
  | .done day rest => timeOfDate day rest
  | .other => time s
  | .malformed => .malformed

/-- The date, time or both that a text stands for: one that takes the whole text. -/
def dateTimeOf? (s : Text) : Option Text :=
  match dateTime s with
  | .done moment [] => some moment
  | _ => none

end ConfigGraph.Toml
