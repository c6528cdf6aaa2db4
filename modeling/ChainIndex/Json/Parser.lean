import ChainIndex.Json.Number
import ChainIndex.Text.Hex

/-!
# Reading JSON text

A recursive descent over the characters of a text. Every call takes at least one character, or is
made by a call that did, so twice the length of the text bounds the depth of the recursion.

Well-formed text without a value is read as `unreadable`: a string with half of a surrogate pair, a
number beyond all doubles, and whatever is nested deeper than `depthLimit`.

* `Json.parse?`: the value of a whole text.
-/

namespace ChainIndex.Json

/-- Arrays and objects nested this deep are not read. -/
def depthLimit : Nat := 128

/-- The blanks that may stand between tokens. -/
def isGap (c : Char) : Bool :=
  c == ' ' || c == '\n' || c == '\t' || c == '\r'

def skipGap (s : List Char) : List Char :=
  s.dropWhile isGap

/-- The number that four hexadecimal digits write. -/
def quad? (a b c d : Char) : Option Nat := do
  return 4096 * (← Text.Hex.value? a) + 256 * (← Text.Hex.value? b) + 16 * (← Text.Hex.value? c) +
    (← Text.Hex.value? d)

/-- The character of a one-letter escape. -/
def unescape? (c : Char) : Option Char :=
  match c with
  | '"' => some '"'
  | '\\' => some '\\'
  | '/' => some '/'
  | 'b' => some '\x08'
  | 'f' => some '\x0c'
  | 'n' => some '\n'
  | 'r' => some '\r'
  | 't' => some '\t'
  | _ => none

/-- A character or half of a surrogate pair, as a string spells it. -/
inductive Unit16 where
  | char (c : Char)
  | high (n : Nat)
  | low (n : Nat)

/-- What an escaped 16-bit number stands for. -/
def Unit16.ofNat (n : Nat) : Unit16 :=
  if 0xD800 ≤ n ∧ n < 0xDC00 then .high n
  else if 0xDC00 ≤ n ∧ n < 0xE000 then .low n
  else .char (Char.ofNat n)

/-- The units of a string up to its closing quote, and the text after it. -/
def units? : List Char → Option (List Unit16 × List Char)
  | [] => none
  | '"' :: rest => some ([], rest)
  | '\\' :: 'u' :: a :: b :: c :: d :: rest => do
    let n ← quad? a b c d
    let (us, rest) ← units? rest
    return (.ofNat n :: us, rest)
  | '\\' :: e :: rest => do
    let c ← unescape? e
    let (us, rest) ← units? rest
    return (.char c :: us, rest)
  | c :: rest =>
    if c.toNat < 32 ∨ c = '\\' then none
    else do
      let (us, rest) ← units? rest
      return (.char c :: us, rest)

/-- The characters of the units, unless half of a pair stands alone. -/
def chars? : List Unit16 → Option (List Char)
  | [] => some []
  | .char c :: us => (chars? us).map (c :: ·)
  | .high h :: .low l :: us =>
    (chars? us).map (Char.ofNat (0x10000 + 1024 * (h - 0xD800) + (l - 0xDC00)) :: ·)
  | _ => none

/-- A string after its opening quote: its text, if it has one, and what follows. -/
def string? (s : List Char) : Option (Option String × List Char) := do
  let (us, rest) ← units? s
  return ((chars? us).map String.ofList, rest)

/-- The leading digits of a text and what follows them. -/
def digits (s : List Char) : List Char × List Char :=
  s.span Char.isDigit

/-- The digits after a point, if one follows; at least one has to stand there. -/
def fraction? (s : List Char) : Option (Option (List Char) × List Char) :=
  match s with
  | '.' :: rest =>
    let (ds, rest) := digits rest
    if ds.isEmpty then none else some (some ds, rest)
  | _ => some (none, s)

/-- The exponent, if one follows. -/
def exponent? (s : List Char) : Option (Option (Bool × List Char) × List Char) :=
  match s with
  | c :: rest =>
    if c = 'e' ∨ c = 'E' then
      let (negative, rest) := match rest with
        | '-' :: rest => (true, rest)
        | '+' :: rest => (false, rest)
        | rest => (false, rest)
      let (ds, rest) := digits rest
      if ds.isEmpty then none else some (some (negative, ds), rest)
    else some (none, s)
  | [] => some (none, s)

/-- A number token. A leading zero stands alone before the point. -/
def numeral? (s : List Char) : Option (Numeral × List Char) := do
  let (negative, s) := match s with
    | '-' :: rest => (true, rest)
    | s => (false, s)
  let (whole, s) := digits s
  if whole.isEmpty ∨ (whole.head? = some '0' ∧ 1 < whole.length) then none
  else
    let (fraction, s) ← fraction? s
    let (exponent, s) ← exponent? s
    return (⟨negative, whole, fraction, exponent⟩, s)

/-- What stands after a fixed word. -/
def after? (word : List Char) (s : List Char) : Option (List Char) :=
  if word.isPrefixOf s then some (s.drop word.length) else none

mutual

/-- A value inside `level` arrays and objects, and the text after it. -/
def value? : Nat → Nat → List Char → Option (Json × List Char)
  | 0, _, _ => none
  | fuel + 1, level, s =>
    match skipGap s with
    | '"' :: rest => do
      let (content, rest) ← string? rest
      return (content.elim Json.unreadable Json.text, rest)
    | '[' :: rest => do
      let (items, rest) ← match skipGap rest with
        | ']' :: rest => some ([], rest)
        | rest => items? fuel (level + 1) rest
      return (if level + 1 < depthLimit then .array items else .unreadable, rest)
    | '\x7b' :: rest => do
      let (members, rest) ← match skipGap rest with
        | '\x7d' :: rest => some (some [], rest)
        | rest => members? fuel (level + 1) rest
      let whole := members.elim Json.unreadable Json.object
      return (if level + 1 < depthLimit then whole else .unreadable, rest)
    | 'n' :: rest => (after? ['u', 'l', 'l'] rest).map (.null, ·)
    | 't' :: rest => (after? ['r', 'u', 'e'] rest).map (.bool true, ·)
    | 'f' :: rest => (after? ['a', 'l', 's', 'e'] rest).map (.bool false, ·)
    | rest => (numeral? rest).map fun (t, rest) => (ofNumeral t, rest)

/-- One or more values with commas between them, up to the closing bracket. -/
def items? : Nat → Nat → List Char → Option (List Json × List Char)
  | 0, _, _ => none
  | fuel + 1, level, s => do
    let (j, rest) ← value? fuel level s
    match skipGap rest with
    | ',' :: rest => do
      let (js, rest) ← items? fuel level rest
      return (j :: js, rest)
    | ']' :: rest => some ([j], rest)
    | _ => none

/-- One or more members with commas between them, up to the closing brace; no list if a name has no
text. -/
def members? : Nat → Nat → List Char → Option (Option (List (String × Json)) × List Char)
  | 0, _, _ => none
  | fuel + 1, level, s => do
    let '"' :: rest := skipGap s | none
    let (name, rest) ← string? rest
    let ':' :: rest := skipGap rest | none
    let (j, rest) ← value? fuel level rest
    match skipGap rest with
    | ',' :: rest => do
      let (ms, rest) ← members? fuel level rest
      return (do return (← name, j) :: (← ms), rest)
    | '\x7d' :: rest => some (name.map fun n => [(n, j)], rest)
    | _ => none

end

/-- The value of a text that holds nothing else. -/
def parse? (s : String) : Option Json := do
  let cs := s.toList
  let (j, rest) ← value? (2 * cs.length + 2) 0 cs
  if (skipGap rest).isEmpty then some j else none

end ChainIndex.Json
