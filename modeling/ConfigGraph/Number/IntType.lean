import ConfigGraph.Number.Decimal

/-!
# Integer types

The twelve fixed-width integer types that a property can be read as. A numeral is read exactly or
refused; it never wraps.
-/

namespace ConfigGraph.Number

/-- An integer type by its name. The types of machine size have 64 bits. -/
inductive IntType where
  | i8 | i16 | i32 | i64 | i128 | isize
  | u8 | u16 | u32 | u64 | u128 | usize
  deriving DecidableEq

namespace IntType

def signed : IntType → Bool
  | i8 | i16 | i32 | i64 | i128 | isize => true
  | u8 | u16 | u32 | u64 | u128 | usize => false

def bits : IntType → Nat
  | i8 | u8 => 8
  | i16 | u16 => 16
  | i32 | u32 => 32
  | i64 | u64 | isize | usize => 64
  | i128 | u128 => 128

def name : IntType → String
  | i8 => "i8" | i16 => "i16" | i32 => "i32" | i64 => "i64" | i128 => "i128" | isize => "isize"
  | u8 => "u8" | u16 => "u16" | u32 => "u32" | u64 => "u64" | u128 => "u128" | usize => "usize"

/-- The least number of the type. -/
def least (t : IntType) : Int :=
  if t.signed then -(Nat.pow 2 (t.bits - 1) : Nat) else 0

/-- The greatest number of the type. -/
def greatest (t : IntType) : Int :=
  if t.signed then (Nat.pow 2 (t.bits - 1) : Nat) - 1 else (Nat.pow 2 t.bits : Nat) - 1

/-- Whether a number is one of the type. -/
def holds (t : IntType) (n : Int) : Bool :=
  t.least ≤ n && n ≤ t.greatest

/-- The number that a numeral stands for, where it is one of the type. A plus sign is read
everywhere, a minus sign for signed types only. -/
def read? (t : IntType) (s : Text) : Option Int :=
  let n? : Option Int := match s with
    | '+' :: rest => (readNat? rest).map Int.ofNat
    | '-' :: rest => if t.signed then (readNat? rest).map fun n => -(n : Int) else none
    | _ => (readNat? s).map Int.ofNat
  n?.filter t.holds

end IntType

end ConfigGraph.Number
