/-!
# Hexadecimal text

Bytes as two lowercase digits each.
-/

namespace ChainIndex.Text.Hex

/-- The sixteen digits. -/
def alphabet : List Char :=
  "0123456789abcdef".toList

/-- The digit of a number below sixteen. -/
def digit (n : Nat) : Char :=
  alphabet.getD n '0'

/-- The two digits of a byte, the high one first. -/
def ofByte (b : UInt8) : List Char :=
  [digit (b.toNat / 16), digit (b.toNat % 16)]

def encode (bytes : List UInt8) : String :=
  String.ofList (bytes.flatMap ofByte)

/-- The value of a digit of either case. -/
def value? (c : Char) : Option Nat :=
  if '0' ≤ c ∧ c ≤ '9' then some (c.toNat - '0'.toNat)
  else if 'a' ≤ c ∧ c ≤ 'f' then some (c.toNat - 'a'.toNat + 10)
  else if 'A' ≤ c ∧ c ≤ 'F' then some (c.toNat - 'A'.toNat + 10)
  else none

/-- The bytes that pairs of digits write. -/
def decodeList? : List Char → Option (List UInt8)
  | [] => some []
  | h :: l :: rest => do
    let high ← value? h
    let low ← value? l
    return UInt8.ofNat (16 * high + low) :: (← decodeList? rest)
  | [_] => none

def decode? (s : String) : Option (List UInt8) :=
  decodeList? s.toList

end ChainIndex.Text.Hex
