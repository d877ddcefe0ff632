import ConfigGraph.Text.Basic

/-!
# Readers

A reader takes a value off the front of a text, or fails. The loops here go on only with a shorter
text, so they end whatever the readers in them do. Where a text may have one of several forms, an
attempt at one of them tells another form from a mistake.
-/

namespace ConfigGraph

/-- Reads a value off the front of a text and gives the rest. -/
abbrev Reader (α : Type) := Text → Option (α × Text)

/-- What comes of trying to read one of several forms. -/
inductive Attempt (α : Type) where
  | done (a : α) (rest : Text)
  /-- The text has another form. -/
  | other
  /-- The text has this form, with a mistake. -/
  | malformed

namespace Reader

variable {α : Type}

/-- Items between commas, up to a closing character. A comma may stand before that character only
where `trailing` says so. -/
def listed (item : Reader α) (skip : Text → Text) (close : Char) (trailing : Bool) (s : Text) :
    Option (List α × Text) :=
  let start := skip s
  if trailing && start.head? == some close then some ([], start.tail)
  else
    match item start with
    | none => none
    | some (a, rest) =>
      match skip rest with
      | [] => none
      | c :: more =>
        if c = ',' then
          if more.length < s.length then
            (listed item skip close trailing more).map fun (as, rest) => (a :: as, rest)
          else none
        else if c = close then some ([a], more)
        else none
termination_by s.length

/-- Items between commas, up to a closing character; there may be none. -/
def list (item : Reader α) (skip : Text → Text) (close : Char) (trailing : Bool) :
    Reader (List α) := fun s =>
  if (skip s).head? == some close then some ([], (skip s).tail)
  else listed item skip close trailing s

/-- Items with a character between them, one at least. -/
def separated (item : Reader α) (sep : Char) (s : Text) : Option (List α × Text) :=
  match item s with
  | none => none
  | some (a, c :: more) =>
    if c = sep then
      if more.length < s.length then
        (separated item sep more).map fun (as, rest) => (a :: as, rest)
      else none
    else some ([a], c :: more)
  | some (a, []) => some ([a], [])
termination_by s.length

end Reader

/-- What follows a word at the front of a text. -/
def Text.afterWord? (word : String) (s : Text) : Option Text :=
  word.toList.isPrefixOf? s

end ConfigGraph
