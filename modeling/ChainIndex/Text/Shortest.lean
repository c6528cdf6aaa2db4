import ChainIndex.Number.Double

/-!
# Shortest decimals

The fewest decimal digits that still denote a given binary floating-point number, and of those the
nearest to it. All comparisons are made exactly, in natural numbers.
-/

namespace ChainIndex.Text.Shortest

/-- A positive binary number together with the numbers that round to it: everything between `low`
and `high`, the ends included when `closed`, all in units of `1 / unit`. -/
structure Interval where
  low : Nat
  value : Nat
  high : Nat
  unit : Nat
  closed : Bool

/-- The interval of a positive finite double, given without its sign bit. -/
def Interval.ofBits (bits : Nat) : Interval :=
  let m := Double.significand bits
  let e := Double.place bits
  -- a quarter of a unit in the last place is 2 ^ (e - 1077)
  let scale := Nat.pow 2 (e - 1077)
  let below := if Double.fraction bits = 0 ∧ 1 < Double.biased bits then 1 else 2
  { low := (4 * m - below) * scale, value := 4 * m * scale, high := (4 * m + 2) * scale,
    unit := Nat.pow 2 (1077 - e), closed := m % 2 = 0 }

/-- The position of the first digit: the least `p` with `value < 10 ^ p`. -/
def magnitude (i : Interval) : Int :=
  if i.unit ≤ i.value then
    ((Nat.toDigits 10 (i.value / i.unit)).length : Int)
  else
    match (List.range 400).find? fun k => i.unit ≤ i.value * Nat.pow 10 (k + 1) with
    | some k => -(k : Int)
    | none => 0

/-- `d · 10 ^ e` and a number `n / unit` over one denominator. -/
def onGrid (i : Interval) (e : Int) (d n : Nat) : Nat × Nat :=
  (d * Nat.pow 10 e.toNat * i.unit, n * Nat.pow 10 (-e).toNat)

/-- Whether `d · 10 ^ e` rounds to the value. -/
def hits (i : Interval) (e : Int) (d : Nat) : Bool :=
  let (x, low) := onGrid i e d i.low
  let (_, high) := onGrid i e d i.high
  if i.closed then low ≤ x && x ≤ high else low < x && x < high

/-- The nearest number with `n` digits that rounds to the value, as a multiple of a power of ten. A
tie goes to the even multiple. -/
def withDigits (i : Interval) (n : Nat) : Option (Nat × Int) :=
  let e := magnitude i - n
  let (unit, v) := onGrid i e 1 i.value
  let d := v / unit
  let below := hits i e d
  let above := hits i e (d + 1)
  if below && above then
    let rest := 2 * (v % unit)
    some (if rest < unit || (rest == unit && d % 2 == 0) then d else d + 1, e)
  else if below then some (d, e)
  else if above then some (d + 1, e)
  else none

/-- Drops the zeros at the end, at most `fuel` of them. -/
def dropZeros : Nat → Nat × Int → Nat × Int
  | 0, p => p
  | fuel + 1, (d, e) => if d % 10 = 0 then dropZeros fuel (d / 10, e + 1) else (d, e)

/-- Digits `d` and exponent `e` such that `d · 10 ^ e` is the shortest decimal of a positive finite
double, given without its sign bit. -/
def ofBits (bits : Nat) : Nat × Int :=
  let i := Interval.ofBits bits
  match (List.range 17).findSome? fun n => withDigits i (n + 1) with
  | some p => dropZeros 17 p
  | none => (0, 0)

end ChainIndex.Text.Shortest
