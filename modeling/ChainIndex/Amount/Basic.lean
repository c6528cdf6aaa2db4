import ChainIndex.Text.Blank
import ChainIndex.Text.Digits

/-!
# Decimal amounts

An amount is an integer mantissa with a number of fractional digits: `44.55` is `(4455, 2)`, and its
value is `numeric · 10 ^ -exp`. The text that it was read from stays beside it.

* `Amount.parseDecimal`: reads `I.F` as the digits of `I` and `F` and the length of `F`.
* `Amount.decimalText`: writes mantissa and exponent back.
-/

namespace ChainIndex

/-- An amount with its denomination. -/
structure Amount where
  /-- The text the amount was read from, without its denomination. -/
  text : String := ""
  numeric : Int := 0
  /-- The number of fractional digits. -/
  exp : Int32 := 0
  /-- The denomination, empty when unknown. -/
  currency : String := ""
deriving DecidableEq, Repr, Inhabited

namespace Amount

/-- Why a text is no amount. -/
inductive Error where
  | empty
  | tooManySeparators (input : String)
  | notNumeric (input : String)
  /-- Neither an amount nor an amount with a denomination. -/
  | unrecognized (token : String)
deriving DecidableEq, Repr

def Error.message : Error → String
  | .empty => "empty amount"
  | .tooManySeparators s => s!"amount '{s}' has more than one decimal separator"
  | .notNumeric s => s!"amount '{s}' is not a decimal number"
  | .unrecognized s => s!"token '{s}' is not an amount with optional currency"

/-- The digits after the point that the chain's fixed-point numbers carry. -/
def fixedPrecision : Nat := 18

/-- The two characters that may separate the fraction. -/
def isSeparator (c : Char) : Bool :=
  c == '.' || c == ','

/-- Whether a text starts with a minus sign, and the text after it. -/
def splitSign : List Char → Bool × List Char
  | '-' :: rest => (true, rest)
  | s => (false, s)

/-- Reads `I.F`, or `I` alone, as the integer written by the digits of `I` and `F` together with the
length of `F`. Blanks around it are dropped, a comma stands for the point, and only `I` may have a
minus sign. -/
def parseDecimal (input : String) : Except Error (Int × Int32) :=
  let trimmed := Text.trim input.toList
  if trimmed.isEmpty then .error .empty
  else
    let read (whole frac : List Char) : Except Error (Int × Int32) :=
      let (negative, rest) := splitSign whole
      let digits := rest ++ frac
      if Text.isNumeral digits then
        let n : Int := Text.value digits
        .ok (if negative then -n else n, Int32.ofNat frac.length)
      else .error (.notNumeric input)
    match Text.fields isSeparator trimmed with
    | [whole] => read whole []
    | [whole, frac] => read whole frac
    | _ => .error (.tooManySeparators input)

/-- The digits of `n`, at least `places + 1` of them, with the point before the last `places`. -/
def placePoint (n places : Nat) : List Char :=
  let digits := (toString n).toList
  let padded := List.replicate (places + 1 - digits.length) '0' ++ digits
  let whole := padded.length - places
  padded.take whole ++ '.' :: padded.drop whole

/-- The text of `numeric · 10 ^ -exp`: exactly `exp` digits after the point when `exp` is positive,
and trailing zeros in place of a negative one. -/
def render (numeric : Int) (exp : Int) : List Char :=
  let sign := if numeric < 0 then ['-'] else []
  if exp ≤ 0 then
    sign ++ (toString numeric.natAbs).toList ++ List.replicate exp.natAbs '0'
  else sign ++ placePoint numeric.natAbs exp.natAbs

/-- The amount written out from its mantissa and exponent. -/
def decimalText (a : Amount) : String :=
  String.ofList (render a.numeric a.exp.toInt)

/-- Reads a plain decimal such as `44.55`. -/
def parse (text currency : String) : Except Error Amount := do
  let (numeric, exp) ← parseDecimal text
  return { text := Text.trimmed text, numeric, exp, currency }

/-- Reads a fixed-point number from the integer that is `10 ^ precision` times its value. -/
def ofScaled (text : String) (precision : Int32) (currency : String) : Except Error Amount := do
  let (numeric, exp) ← parseDecimal text
  if exp ≠ 0 then throw (.notNumeric text)
  return { text := String.ofList (render numeric precision.toInt), numeric, exp := precision, currency }

/-- Reads a plain decimal into the chain's fixed point, so that all such amounts share one
exponent. -/
def parseFixed (text currency : String) : Except Error Amount := do
  let (numeric, exp) ← parseDecimal text
  if (fixedPrecision : Int) < exp.toInt then throw (.notNumeric text)
  let scale : Int := Nat.pow 10 ((fixedPrecision : Int) - exp.toInt).toNat
  return { text := Text.trimmed text, numeric := numeric * scale,
           exp := Int32.ofNat fixedPrecision, currency }

end Amount

end ChainIndex
