import ChainIndex.Amount.Basic

/-!
# Amounts with a denomination

`123ukrw` is the amount `123` of the denomination `ukrw`. The longest leading run of digits, points,
commas and minus signs that leaves a denomination is the amount; a bare number has none.

* `Amount.split`: divides a token into amount and denomination.
* `Amount.parseList`: reads a comma-joined list of such tokens.
-/

namespace ChainIndex.Amount

/-- A character that the amount part of a token may hold. -/
def isNumericMark (c : Char) : Bool :=
  c.isDigit || isSeparator c || c == '-'

/-- The denomination that `rest` is after leading blanks: no blank in it, no digit first. -/
def denomination? (rest : List Char) : Option (List Char) :=
  match rest.dropWhile Text.isBlank with
  | c :: s => if !c.isDigit && s.all (fun c => !Text.isBlank c) then some (c :: s) else none
  | [] => none

/-- Tries the amount parts of length `k`, `k - 1`, …, `1` and takes the first that leaves a
denomination. -/
def splitFrom (token : List Char) : Nat → Option (List Char × List Char)
  | 0 => none
  | k + 1 =>
    match denomination? (token.drop (k + 1)) with
    | some denom => some (token.take (k + 1), denom)
    | none => splitFrom token k

/-- Divides `123ukrw` into `123` and `ukrw`, and a bare number into itself and nothing. -/
def split (token : String) : Except Error (String × String) :=
  let t := Text.trim token.toList
  if t.isEmpty then .error .empty
  else
    match splitFrom t (t.takeWhile isNumericMark).length with
    | some (amount, denom) => .ok (String.ofList amount, String.ofList denom)
    | none =>
      match parseDecimal (String.ofList t) with
      | .ok _ => .ok (String.ofList t, "")
      | .error _ => .error (.unrecognized (String.ofList t))

/-- Reads a token such as `123ukrw`. -/
def parseCoin (token : String) : Except Error Amount := do
  let (amount, currency) ← split token
  parse amount currency

/-- Reads a comma-joined list such as `2896ukrw,16uluna`; blank parts are skipped. -/
def parseList (input : String) : Except Error (List Amount) :=
  ((Text.fields (· == ',') input.toList).filter fun part => !part.all Text.isBlank).mapM
    fun part => parseCoin (String.ofList part)

end ChainIndex.Amount
