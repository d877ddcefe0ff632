import ConfigGraph.Text.Basic

/-!
# UTF-8

Bytes are read in the shortest form only; surrogates and numbers above `0x10FFFF` are refused.
-/

namespace ConfigGraph.Text

/-- A continuation byte's six bits. -/
def tailBits? (b : UInt8) : Option Nat :=
  let n := b.toNat
  if 0x80 ≤ n && n ≤ 0xBF then some (n - 0x80) else none

/-- The character with this number, where it is at least `least` and no surrogate. -/
def scalar? (least n : Nat) : Option Char :=
  if h : least ≤ n ∧ n.isValidChar then some (Char.ofNatAux n h.2) else none

/-- The text a byte string encodes, unless it is malformed. -/
def ofUtf8? : List UInt8 → Option Text
  | [] => some []
  | a :: rest =>
    let n := a.toNat
    if n < 0x80 then do
      let c ← scalar? 0 n
      return c :: (← ofUtf8? rest)
    else if n < 0xC0 then none
    else if n < 0xE0 then
      match rest with
      | b :: rest => do
        let c ← scalar? 0x80 ((n - 0xC0) * 64 + (← tailBits? b))
        return c :: (← ofUtf8? rest)
      | _ => none
    else if n < 0xF0 then
      match rest with
      | b :: c :: rest => do
        let c ← scalar? 0x800 (((n - 0xE0) * 64 + (← tailBits? b)) * 64 + (← tailBits? c))
        return c :: (← ofUtf8? rest)
      | _ => none
    else if n < 0xF8 then
      match rest with
      | b :: c :: d :: rest => do
        let high := ((n - 0xF0) * 64 + (← tailBits? b)) * 64 + (← tailBits? c)
        let c ← scalar? 0x10000 (high * 64 + (← tailBits? d))
        return c :: (← ofUtf8? rest)
      | _ => none
    else none

/-- The bytes of a character. -/
def charBytes (c : Char) : List UInt8 :=
  let n := c.toNat
  let tail (shift : Nat) : UInt8 := .ofNat (0x80 + n / shift % 64)
  if n < 0x80 then [.ofNat n]
  else if n < 0x800 then [.ofNat (0xC0 + n / 64), tail 1]
  else if n < 0x10000 then [.ofNat (0xE0 + n / 4096), tail 64, tail 1]
  else [.ofNat (0xF0 + n / 262144), tail 4096, tail 64, tail 1]

/-- The bytes of a text. -/
def toUtf8 (s : Text) : List UInt8 :=
  s.flatMap charBytes

end ConfigGraph.Text
