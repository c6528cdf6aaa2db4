import ChainIndex.Json.Basic
import ChainIndex.Text.Digits
import ChainIndex.Text.Shortest

/-!
# JSON numbers

An integer that fits a machine word is kept exactly. Every other number becomes a double: digits are
gathered while they fit 64 bits, and the result is scaled by one power of ten.

* `Json.ofNumeral`: the value of a number token.
* `Json.floatText`: the shortest text of a double.
-/

namespace ChainIndex.Json

/-- A number token, taken apart. -/
structure Numeral where
  negative : Bool
  whole : List Char
  /-- The digits after the point, if there is one. -/
  fraction : Option (List Char)
  /-- Whether the exponent is negative, and its digits. -/
  exponent : Option (Bool × List Char)

/-- Gathers digits while the number fits 64 bits; returns it with the number of digits taken. -/
def gather (acc : Nat) : List Char → Nat × Nat
  | [] => (acc, 0)
  | c :: s =>
    let next := 10 * acc + Text.digitValue c
    if next < UInt64.size then
      let (n, taken) := gather next s
      (n, taken + 1)
    else (acc, 0)

def pow10 (n : Nat) : Float :=
  Float.ofScientific 1 false n

/-- `f / 10 ^ n`, in steps that stay within the doubles. -/
def scaleDown (f : Float) (n : Nat) : Float :=
  if n ≤ 308 then f / pow10 n
  else if n ≤ 616 then f / pow10 308 / pow10 (n - 308)
  else 0.0

/-- `significand · 10 ^ exponent`, unless it is too large for a double. -/
def scaled? (significand : Nat) (exponent : Int) : Option Float :=
  let f := Float.ofNat significand
  if exponent < 0 then some (scaleDown f exponent.natAbs)
  else if exponent ≤ 308 then
    let g := f * pow10 exponent.natAbs
    if g.isInf then none else some g
  else if significand = 0 then some f
  else none

/-- The double that a numeral denotes, unless it is too large. -/
def Numeral.double? (t : Numeral) : Option Float :=
  let (n₀, taken) := gather 0 t.whole
  let skipped : Int := t.whole.length - taken
  let (n, places) := gather n₀ (t.fraction.getD [])
  let shift := skipped - places
  match t.exponent with
  | none => scaled? n shift
  | some (down, digits) =>
    let e : Int := Text.value digits
    if 0x80000000 ≤ e then if n = 0 ∨ down then some 0.0 else none
    else scaled? n (if down then shift - e else shift + e)

/-- The value of a number token. -/
def ofNumeral (t : Numeral) : Json :=
  let n := Text.value t.whole
  let exact := t.fraction.isNone && t.exponent.isNone
  if exact && !t.negative && n < UInt64.size then .integer n
  else if exact && t.negative && 0 < n && n ≤ 0x8000000000000000 then .integer (-n)
  else
    match t.double? with
    | some f => .float (if t.negative then -f else f).toBits
    | none => .unreadable

/-- The natural number that a finite double equals, if it equals one. -/
def wholeOf? (bits : UInt64) : Option Nat :=
  let magnitude := Double.magnitude bits
  let m := Double.significand magnitude
  let e := Double.place magnitude
  let scale := Nat.pow 2 (1075 - e)
  if magnitude = 0 then some 0
  else if Double.isNegative bits then none
  else if m % scale = 0 then some (m / scale * Nat.pow 2 (e - 1075))
  else none

/-- Decimal digits with a point or an exponent: positional from `1e-5` up to below `1e16`, and with
at least one digit after the point there. An exponent always has its sign. -/
def layout (digits : List Char) (exponent : Int) : List Char :=
  let point := digits.length + exponent
  if 0 ≤ exponent ∧ point ≤ 16 then
    digits ++ List.replicate exponent.natAbs '0' ++ ['.', '0']
  else if 0 < point ∧ point ≤ 16 then
    digits.take point.natAbs ++ '.' :: digits.drop point.natAbs
  else if -5 < point ∧ point ≤ 0 then
    '0' :: '.' :: (List.replicate point.natAbs '0' ++ digits)
  else
    let tail := digits.drop 1
    let sign := if 0 < point then '+' else '-'
    digits.take 1 ++ (if tail.isEmpty then [] else '.' :: tail) ++
      'e' :: sign :: (toString (point - 1).natAbs).toList

/-- The shortest text of a finite double. -/
def floatText (bits : UInt64) : String :=
  let magnitude := Double.magnitude bits
  let sign := if Double.isNegative bits then ['-'] else []
  let body :=
    if magnitude = 0 then ['0', '.', '0']
    else
      let (digits, exponent) := Text.Shortest.ofBits magnitude
      layout (toString digits).toList exponent
  String.ofList (sign ++ body)

end ChainIndex.Json
