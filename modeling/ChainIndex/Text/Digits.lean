/-!
# Decimal digits

Values of digit texts, and the integers that a text can write.

* `value_append`: appending digits shifts the value by their number.
* `unsigned?`: an unsigned word with an optional plus sign.
-/

namespace ChainIndex.Text

/-- The value of a decimal digit. -/
def digitValue (c : Char) : Nat :=
  c.toNat - '0'.toNat

/-- The number that a text of decimal digits writes. -/
def value (digits : List Char) : Nat :=
  digits.foldl (fun acc c => 10 * acc + digitValue c) 0

theorem foldl_value (acc : Nat) (s : List Char) :
    s.foldl (fun acc c => 10 * acc + digitValue c) acc = acc * Nat.pow 10 s.length + value s := by
  unfold value
  induction s generalizing acc with
  | nil => simp
  | cons c s ih =>
    simp only [List.foldl_cons, List.length_cons]
    have hp : Nat.pow 10 (s.length + 1) = Nat.pow 10 s.length * 10 := rfl
    rw [ih, ih (10 * 0 + digitValue c), hp, Nat.add_mul, Nat.add_mul]
    simp only [Nat.mul_zero, Nat.zero_mul, Nat.zero_add, Nat.add_assoc]
    rw [Nat.mul_comm 10 acc, Nat.mul_assoc, Nat.mul_comm 10]

theorem value_append (s t : List Char) :
    value (s ++ t) = value s * Nat.pow 10 t.length + value t := by
  unfold value
  rw [List.foldl_append, foldl_value]
  rfl

/-- A nonempty text of decimal digits. -/
def isNumeral (s : List Char) : Bool :=
  !s.isEmpty && s.all Char.isDigit

/-- The number below `bound` that the text writes: decimal digits after an optional plus sign. -/
def unsigned? (bound : Nat) (s : List Char) : Option Nat :=
  let digits := match s with
    | '+' :: rest => rest
    | s => s
  if isNumeral digits && value digits < bound then some (value digits) else none

/-- The 64-bit word that the text writes. -/
def word64? (s : String) : Option UInt64 :=
  (unsigned? UInt64.size s.toList).map UInt64.ofNat

/-- The integer that the text writes: an optional sign, digits, and underscores after the first
digit. -/
def signed? (s : List Char) : Option Int :=
  let (negative, body) := match s with
    | '-' :: rest => (true, rest)
    | '+' :: rest => (false, rest)
    | s => (false, s)
  let digits := body.filter (· != '_')
  if (body.head?.any Char.isDigit) && digits.all Char.isDigit then
    some (if negative then -(value digits : Int) else value digits)
  else none

end ChainIndex.Text
