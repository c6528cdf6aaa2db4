/-!
# Base64 text

Three bytes as four symbols, with `=` filling up the last four. Only the canonical text of a byte
string is read: its length is a multiple of four and the bits under the fill are zero.
-/

namespace ChainIndex.Text.Base64

/-- The 64 symbols. -/
def alphabet : List Char :=
  "ABCDEFGHIJKLMNOPQRSTUVWXYZabcdefghijklmnopqrstuvwxyz0123456789+/".toList

/-- The symbol of a number below 64. -/
def symbol (n : Nat) : Char :=
  alphabet.getD n 'A'

/-- The four symbols of a number below `2 ^ 24`. -/
def symbols (n : Nat) : List Char :=
  [symbol (n / 262144), symbol (n / 4096 % 64), symbol (n / 64 % 64), symbol (n % 64)]

def encodeList : List UInt8 → List Char
  | [] => []
  | [a] => (symbols (a.toNat * 65536)).take 2 ++ ['=', '=']
  | [a, b] => (symbols (a.toNat * 65536 + b.toNat * 256)).take 3 ++ ['=']
  | a :: b :: c :: rest =>
    symbols (a.toNat * 65536 + b.toNat * 256 + c.toNat) ++ encodeList rest

def encode (bytes : List UInt8) : String :=
  String.ofList (encodeList bytes)

/-- The number that a symbol stands for. -/
def value? (c : Char) : Option Nat :=
  if 'A' ≤ c ∧ c ≤ 'Z' then some (c.toNat - 'A'.toNat)
  else if 'a' ≤ c ∧ c ≤ 'z' then some (c.toNat - 'a'.toNat + 26)
  else if '0' ≤ c ∧ c ≤ '9' then some (c.toNat - '0'.toNat + 52)
  else if c = '+' then some 62
  else if c = '/' then some 63
  else none

def decodeList? : List Char → Option (List UInt8)
  | [] => some []
  | [a, b, '=', '='] => do
    let x := 64 * (← value? a) + (← value? b)
    if x % 16 = 0 then some [UInt8.ofNat (x / 16)] else none
  | [a, b, c, '='] => do
    let x := 4096 * (← value? a) + 64 * (← value? b) + (← value? c)
    if x % 4 = 0 then some [UInt8.ofNat (x / 1024), UInt8.ofNat (x / 4 % 256)] else none
  | a :: b :: c :: d :: rest => do
    let x := 262144 * (← value? a) + 4096 * (← value? b) + 64 * (← value? c) + (← value? d)
    return UInt8.ofNat (x / 65536) :: UInt8.ofNat (x / 256 % 256) :: UInt8.ofNat (x % 256) ::
      (← decodeList? rest)
  | _ => none

def decode? (s : String) : Option (List UInt8) :=
  decodeList? s.toList

end ChainIndex.Text.Base64
