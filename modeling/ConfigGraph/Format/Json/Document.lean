import ConfigGraph.Format.Json.Number
import ConfigGraph.Format.Reader

/-!
# JSON texts

A JSON text is one value with white space around it. Arrays and objects are nested at most 127
deep, and of equal names in an object the last one counts.
-/

namespace ConfigGraph.Json

/-- The text without white space at its front. -/
def skip (s : Text) : Text :=
  s.dropWhile fun c => c == ' ' || c == '\n' || c == '\r' || c == '\t'

/-- The number of four digits in base sixteen. -/
def hex4? (a b c d : Char) : Option Nat := do
  let a ← Text.digit? 16 a
  let b ← Text.digit? 16 b
  let c ← Text.digit? 16 c
  let d ← Text.digit? 16 d
  return ((a * 16 + b) * 16 + c) * 16 + d

/-- The character that a backslash before this one stands for. -/
def escaped? : Char → Option Char
  | '"' => some '"'
  | '\\' => some '\\'
  | '/' => some '/'
  | 'b' => some '\x08'
  | 'f' => some '\x0c'
  | 'n' => some '\n'
  | 'r' => some '\r'
  | 't' => some '\t'
  | _ => none

/-- Reads the content of a string and the quote that ends it. Two escaped surrogates make one
character, and none stands alone. -/
def string? : Text → Option (Text × Text)
  | [] => none
  | '"' :: rest => some ([], rest)
  | '\\' :: 'u' :: a :: b :: c :: d :: rest => do
    let n ← hex4? a b c d
    if 0xD800 ≤ n ∧ n < 0xDC00 then
      match rest with
      | '\\' :: 'u' :: a :: b :: c :: d :: rest =>
        let low ← hex4? a b c d
        if 0xDC00 ≤ low ∧ low < 0xE000 then
          let (content, rest) ← string? rest
          return (Char.ofNat (0x10000 + (n - 0xD800) * 1024 + (low - 0xDC00)) :: content, rest)
        else none
      | _ => none
    else if 0xDC00 ≤ n ∧ n < 0xE000 then none
    else
      let (content, rest) ← string? rest
      return (Char.ofNat n :: content, rest)
  | '\\' :: c :: rest => do
    let c ← escaped? c
    let (content, rest) ← string? rest
    return (c :: content, rest)
  | c :: rest =>
    if c.toNat < 0x20 then none
    else do
      let (content, rest) ← string? rest
      return (c :: content, rest)

/-- Reads a member of an object. -/
def member? (value : Reader Json) : Reader (Text × Json)
  | '"' :: rest => do
    let (name, rest) ← string? rest
    match skip rest with
    | ':' :: rest => do
      let (j, rest) ← value (skip rest)
      return ((name, j), rest)
    | _ => none
  | _ => none

/-- Reads a word that stands for a value. -/
def word? (s : Text) : Option (Json × Text) :=
  match Text.afterWord? "null" s, Text.afterWord? "true" s, Text.afterWord? "false" s with
  | some rest, _, _ => some (.null, rest)
  | _, some rest, _ => some (.bool true, rest)
  | _, _, some rest => some (.bool false, rest)
  | _, _, _ => none

/-- Reads a value that holds arrays and objects up to a depth. -/
def value? (depth : Nat) (s : Text) : Option (Json × Text) :=
  match s with
  | '[' :: rest =>
    match depth with
    | 0 => none
    | depth + 1 =>
      (Reader.list (value? depth) skip ']' false rest).map fun (items, rest) => (.array items, rest)
  | '{' :: rest =>
    match depth with
    | 0 => none
    | depth + 1 =>
      (Reader.list (member? (value? depth)) skip '}' false rest).map fun (members, rest) =>
        (.object (Entries.ofList members), rest)
  | '"' :: rest => (string? rest).map fun (content, rest) => (.string content, rest)
  | _ => (number? s).or (word? s)

/-- The greatest depth of arrays and objects. -/
def maxDepth : Nat := 127

/-- The tree of a JSON text. -/
def decode? (s : Text) : Option Json := do
  let (j, rest) ← value? maxDepth (skip s)
  if (skip rest).isEmpty then some j else none

end ConfigGraph.Json
