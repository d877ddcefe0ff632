import ConfigGraph.Format.Reader

/-!
# TOML strings

Basic strings have escapes and literal ones have none; each kind may stand on one line or, between
three quotes, on several. Line ends inside a string are single line feeds.
-/

namespace ConfigGraph.Toml

/-- Blanks and tabs. -/
def isSpace (c : Char) : Bool := c == ' ' || c == '\t'

/-- The text without blanks and tabs at its front. -/
def skipSpace (s : Text) : Text := s.dropWhile isSpace

/-- The characters that stand for themselves in comments and strings; a control character is not
among them, except the tab. -/
def isPlain (c : Char) : Bool :=
  c == '\t' || (0x20 ≤ c.toNat && c.toNat != 0x7F)

/-- The text after the line end at its front. -/
def newline? : Text → Option Text
  | '\n' :: rest => some rest
  | '\r' :: '\n' :: rest => some rest
  | _ => none

/-- The text without blanks, tabs and line ends at its front. -/
def skipBlankLines : Text → Text
  | '\r' :: '\n' :: rest => skipBlankLines rest
  | c :: rest => if c = '\n' || isSpace c then skipBlankLines rest else c :: rest
  | [] => []

/-- The character with the number that some digits of base sixteen give. -/
def numbered? (ds : Text) : Option Char := do
  let n ← ds.foldlM (fun n c => (Text.digit? 16 c).map (n * 16 + ·)) 0
  if n.isValidChar then some (Char.ofNat n) else none

/-- Reads what follows a backslash. -/
def escape? : Text → Option (Char × Text)
  | 'b' :: rest => some ('\x08', rest)
  | 't' :: rest => some ('\t', rest)
  | 'n' :: rest => some ('\n', rest)
  | 'f' :: rest => some ('\x0c', rest)
  | 'r' :: rest => some ('\r', rest)
  | '"' :: rest => some ('"', rest)
  | '\\' :: rest => some ('\\', rest)
  | 'u' :: rest =>
    if rest.length < 4 then none else (numbered? (rest.take 4)).map (·, rest.drop 4)
  | 'U' :: rest =>
    if rest.length < 8 then none else (numbered? (rest.take 8)).map (·, rest.drop 8)
  | _ => none

/-- Reads the content of a basic string on one line and the quote that ends it. -/
def basic? : Text → Option (Text × Text)
  | [] => none
  | '"' :: rest => some ([], rest)
  | '\\' :: rest =>
    match escape? rest with
    | none => none
    | some (c, after) =>
      if after.length < rest.length then
        (basic? after).map fun (content, rest) => (c :: content, rest)
      else none
  | c :: rest =>
    if isPlain c then (basic? rest).map fun (content, rest) => (c :: content, rest) else none
termination_by s => s.length

/-- Reads the content of a literal string on one line and the quote that ends it. -/
def literal? : Text → Option (Text × Text)
  | [] => none
  | c :: rest =>
    if c = '\'' then some ([], rest)
    else if isPlain c then
      (literal? rest).map fun (content, rest) => (c :: content, rest)
    else none

/-- What a run of quotes in a string of several lines means: three of them end the string, and up
to two before those belong to it. Gives the quotes that belong to the string, whether it ends, and
how many quotes are used up. -/
def closing (run : Nat) : Nat × Bool × Nat :=
  if run < 3 then (run, false, run)
  else if run ≤ 5 then (run - 3, true, run)
  else (2, true, 5)

/-- Reads the content of a string of several lines and the quotes that end it. -/
def lines? (quote : Char) (escapes : Bool) : Text → Option (Text × Text)
  | [] => none
  | c :: rest =>
    if c = quote then
      let (kept, ends, used) := closing ((rest.takeWhile (· == quote)).length + 1)
      let content := List.replicate kept quote
      if ends then some (content, rest.drop (used - 1))
      else
        (lines? quote escapes (rest.drop (used - 1))).map fun (more, rest) =>
          (content ++ more, rest)
    else if escapes && c == '\\' then
      match newline? (skipSpace rest) with
      | some below =>
        if (skipBlankLines below).length < rest.length then
          lines? quote escapes (skipBlankLines below)
        else none
      | none =>
        match escape? rest with
        | none => none
        | some (c, after) =>
          if after.length < rest.length then
            (lines? quote escapes after).map fun (more, rest) => (c :: more, rest)
          else none
    else
      match newline? (c :: rest) with
      | some after =>
        if after.length ≤ rest.length then
          (lines? quote escapes after).map fun (more, rest) => ('\n' :: more, rest)
        else none
      | none =>
        if isPlain c then
          (lines? quote escapes rest).map fun (more, rest) => (c :: more, rest)
        else none
termination_by s => s.length

/-- Reads a string of several lines after its opening quotes; a line end right after them is left
out. -/
def block? (quote : Char) (escapes : Bool) (s : Text) : Option (Text × Text) :=
  lines? quote escapes ((newline? s).getD s)

/-- Reads a string. -/
def quoted? (s : Text) : Option (Text × Text) :=
  match s with
  | '"' :: '"' :: '"' :: rest => block? '"' true rest
  | '\'' :: '\'' :: '\'' :: rest => block? '\'' false rest
  | '"' :: rest => basic? rest
  | '\'' :: rest => literal? rest
  | _ => none

end ConfigGraph.Toml
