import ChainIndex.Json.Codec
import ChainIndex.Text.Blank
import ChainIndex.Text.Digits
import ChainIndex.Time.Basic

/-!
# Times as text

RFC 3339 text in UTC, a reader of the format, and one that is more lenient: blanks between the
parts, fewer digits, any offset, years beyond four digits with a sign.

* `Time.text`: writes a time with 0, 3, 6 or 9 digits after the second, the fewest that are exact.
* `Time.ofRfc3339?`: reads one in the format, with a space for the `T` if need be.
* `Time.ofText?`: reads one leniently.
-/

namespace ChainIndex.Time

/-- Decimal digits of `n`, filled up with zeros to `width`. -/
def padded (width n : Nat) : List Char :=
  let ds := Nat.toDigits 10 n
  List.replicate (width - ds.length) '0' ++ ds

/-- A year with at least four digits, with a sign outside 0 to 9999. -/
def yearText (year : Int) : List Char :=
  if year < 0 then '-' :: padded 4 year.natAbs
  else if 9999 < year then '+' :: padded 4 year.natAbs
  else padded 4 year.natAbs

/-- The fewest of 0, 3, 6 and 9 digits that give the fraction exactly. -/
def fractionText (nanos : Nat) : List Char :=
  if nanos = 0 then []
  else if nanos % 1000000 = 0 then '.' :: padded 3 (nanos / 1000000)
  else if nanos % 1000 = 0 then '.' :: padded 6 (nanos / 1000)
  else '.' :: padded 9 nanos

def chars (t : Time) : List Char :=
  let date := Date.ofDays (t.seconds / daySeconds)
  let second := (t.seconds % daySeconds).toNat
  yearText date.year ++ '-' :: padded 2 date.month ++ '-' :: padded 2 date.day ++
    'T' :: padded 2 (second / 3600) ++ ':' :: padded 2 (second / 60 % 60) ++
    ':' :: padded 2 (second % 60 + t.nanos / 1000000000) ++ fractionText (t.nanos % 1000000000) ++ ['Z']

def text (t : Time) : String :=
  String.ofList t.chars

/-- A number of one to `most` digits, and the text after it. -/
def number? (most : Nat) (s : List Char) : Option (Nat × List Char) :=
  let ds := (s.take most).takeWhile Char.isDigit
  if ds.isEmpty then none else some (Text.value ds, s.drop ds.length)

def skipBlank (s : List Char) : List Char :=
  s.dropWhile Text.isBlank

/-- A year: up to four digits, or any number of them after a sign. -/
def year? (s : List Char) : Option (Int × List Char) :=
  match s with
  | '-' :: rest => (number? rest.length rest).map fun (n, rest) => (-(n : Int), rest)
  | '+' :: rest => (number? rest.length rest).map fun (n, rest) => ((n : Int), rest)
  | s => (number? 4 s).map fun (n, rest) => ((n : Int), rest)

/-- A number of at most two digits within bounds, after blanks. -/
def part? (low high : Nat) (s : List Char) : Option (Nat × List Char) := do
  let (n, rest) ← number? 2 (skipBlank s)
  if low ≤ n ∧ n ≤ high then some (n, rest) else none

/-- A separator, after blanks. -/
def mark? (c : Char) (s : List Char) : Option (List Char) :=
  match skipBlank s with
  | d :: rest => if d = c then some rest else none
  | [] => none

/-- The nanoseconds of a fraction, if one follows; digits after the ninth are passed over. -/
def fraction? (s : List Char) : Option (Nat × List Char) :=
  match s with
  | '.' :: rest =>
    let ds := rest.takeWhile Char.isDigit
    let kept := ds.take 9
    if ds.isEmpty then none
    else some (Text.value kept * Nat.pow 10 (9 - kept.length), rest.drop ds.length)
  | s => some (0, s)

/-- A two-digit number up to `high`. -/
def pair? (high : Nat) (s : List Char) : Option (Nat × List Char) :=
  match s with
  | a :: b :: rest =>
    let n := 10 * Text.digitValue a + Text.digitValue b
    if a.isDigit && b.isDigit && n ≤ high then some (n, rest) else none
  | _ => none

/-- The seconds by which local time is ahead of UTC: `UTC`, `Z`, or a sign, hours and minutes with
any colons and blanks between them. -/
def offset? (s : List Char) : Option (Int × List Char) :=
  if (s.take 3).map Char.toLower = ['u', 't', 'c'] then some (0, s.drop 3)
  else
    match s with
    | [] => none
    | c :: rest =>
      if c = 'Z' ∨ c = 'z' then some (0, rest)
      else if c = '+' ∨ c = '-' ∨ c = '\u2212' then do
        let (hours, rest) ← pair? 99 rest
        let (minutes, rest) ← pair? 59 (rest.dropWhile fun d => d = ':' || Text.isBlank d)
        let n : Int := hours * 3600 + minutes * 60
        if n < daySeconds then some (if c = '+' then n else -n, rest) else none
      else none

/-- A point in local time, `ahead` seconds before UTC. -/
def ofLocal? (date : Date) (hour minute second nanos : Nat) (ahead : Int) : Option Time := do
  if !date.isValid then none
  let base := date.toDays * daySeconds + hour * 3600 + minute * 60
  -- a sixtieth second is the end of the fifty-ninth one, a whole second longer
  let atClock := if second = 60 then (base + 59, nanos + 1000000000) else (base + second, nanos)
  let _ ← ofParts? atClock.1 atClock.2
  ofParts? (atClock.1 - ahead) atClock.2

/-- The time that the text writes. -/
def ofChars? (s : List Char) : Option Time := do
  let (year, s) ← year? (skipBlank s)
  let s ← mark? '-' s
  let (month, s) ← part? 1 12 s
  let s ← mark? '-' s
  let (day, s) ← part? 1 31 s
  let c :: s := s | none
  if ¬(c = 'T' ∨ c = 't' ∨ c = ' ') then none
  let (hour, s) ← part? 0 23 s
  let s ← mark? ':' s
  let (minute, s) ← part? 0 59 s
  let s ← mark? ':' s
  let (second, s) ← part? 0 60 s
  let (nanos, s) ← fraction? s
  let (ahead, s) ← offset? (skipBlank s)
  if !(skipBlank s).isEmpty then none
  ofLocal? ⟨year, month, day⟩ hour minute second nanos ahead

def ofText? (s : String) : Option Time :=
  ofChars? s.toList

/-- A number of exactly `width` digits within bounds. -/
def fixed? (width low high : Nat) (s : List Char) : Option (Nat × List Char) :=
  let ds := s.take width
  let n := Text.value ds
  if ds.length = width && ds.all Char.isDigit && low ≤ n && n ≤ high then some (n, s.drop width)
  else none

/-- A separator at the very place. -/
def separator? (c : Char) (s : List Char) : Option (List Char) :=
  match s with
  | d :: rest => if d = c then some rest else none
  | [] => none

/-- The offset in the format: a `Z`, or a sign, hours, a colon and minutes. -/
def exactOffset? (s : List Char) : Option (Int × List Char) :=
  match s with
  | [] => none
  | c :: rest =>
    if c = 'Z' ∨ c = 'z' then some (0, rest)
    else if c = '+' ∨ c = '-' ∨ c = '\u2212' then do
      let (hours, rest) ← fixed? 2 0 23 rest
      let rest ← separator? ':' rest
      let (minutes, rest) ← fixed? 2 0 59 rest
      let n : Int := hours * 3600 + minutes * 60
      return (if c = '+' then n else -n, rest)
    else none

/-- The time that the text writes in the format. -/
def ofRfc3339? (text : String) : Option Time := do
  let (year, s) ← fixed? 4 0 9999 text.toList
  let s ← separator? '-' s
  let (month, s) ← fixed? 2 1 12 s
  let s ← separator? '-' s
  let (day, s) ← fixed? 2 1 31 s
  let c :: s := s | none
  if ¬(c = 'T' ∨ c = 't' ∨ c = ' ') then none
  let (hour, s) ← fixed? 2 0 23 s
  let s ← separator? ':' s
  let (minute, s) ← fixed? 2 0 59 s
  let s ← separator? ':' s
  let (second, s) ← fixed? 2 0 60 s
  let (nanos, s) ← fraction? s
  let (ahead, s) ← exactOffset? s
  if !s.isEmpty then none
  ofLocal? ⟨year, month, day⟩ hour minute second nanos ahead

/-- Times as JSON text. -/
def codec : Json.Codec Time :=
  Json.Codec.text.via text ofText?

end ChainIndex.Time
