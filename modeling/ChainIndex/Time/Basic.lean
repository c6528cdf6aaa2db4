/-!
# Points in time

Seconds since the start of 1970 and nanoseconds, in UTC. The nanoseconds of a leap second run from
`10 ^ 9` to `2 · 10 ^ 9`. Years reach from -262143 to 262142.

* `Date.ofDays`, `Date.toDays`: the proleptic Gregorian calendar.
* `Time.ofParts?`: a point in time, if the numbers describe one.
-/

namespace ChainIndex

/-- A day of the calendar. -/
structure Date where
  year : Int
  month : Nat
  day : Nat
deriving DecidableEq, Repr

namespace Date

def isLeap (year : Int) : Bool :=
  year % 4 = 0 && (year % 100 ≠ 0 || year % 400 = 0)

def daysInMonth (year : Int) (month : Nat) : Nat :=
  if month = 2 then (if isLeap year then 29 else 28)
  else if month = 4 ∨ month = 6 ∨ month = 9 ∨ month = 11 then 30
  else 31

/-- Whether the calendar has this day. -/
def isValid (d : Date) : Bool :=
  1 ≤ d.month && d.month ≤ 12 && 1 ≤ d.day && d.day ≤ daysInMonth d.year d.month

/-- The number of days since the start of 1970. Years are counted from March, so that the leap day
is the last one, and in eras of 400 years, which all have 146097 days. -/
def toDays (d : Date) : Int :=
  let y := if d.month ≤ 2 then d.year - 1 else d.year
  let m : Int := if d.month ≤ 2 then d.month + 9 else d.month - 3
  let yearOfEra := y % 400
  let dayOfYear := (153 * m + 2) / 5 + d.day - 1
  y / 400 * 146097 + (yearOfEra * 365 + yearOfEra / 4 - yearOfEra / 100 + dayOfYear) - 719468

/-- The day with this number. -/
def ofDays (n : Int) : Date :=
  let z := n + 719468
  let dayOfEra := z % 146097
  let yearOfEra := (dayOfEra - dayOfEra / 1460 + dayOfEra / 36524 - dayOfEra / 146096) / 365
  let dayOfYear := dayOfEra - (365 * yearOfEra + yearOfEra / 4 - yearOfEra / 100)
  let m := (5 * dayOfYear + 2) / 153
  let month := if m < 10 then m + 3 else m - 9
  { year := yearOfEra + z / 146097 * 400 + (if month ≤ 2 then 1 else 0)
    month := month.toNat
    day := (dayOfYear - (153 * m + 2) / 5 + 1).toNat }

end Date

namespace Time

def daySeconds : Int := 86400

/-- The first second of the year -262143. -/
def minSeconds : Int := Date.toDays ⟨-262143, 1, 1⟩ * daySeconds

/-- The last second of the year 262142. -/
def maxSeconds : Int := (Date.toDays ⟨262142, 12, 31⟩ + 1) * daySeconds - 1

/-- The numbers describe a point in time; only the last second of a minute can be a leap second. -/
def Valid (seconds : Int) (nanos : Nat) : Prop :=
  minSeconds ≤ seconds ∧ seconds ≤ maxSeconds ∧
    (nanos < 1000000000 ∨ (nanos < 2000000000 ∧ seconds % 60 = 59))

instance (seconds : Int) (nanos : Nat) : Decidable (Valid seconds nanos) :=
  inferInstanceAs (Decidable (_ ∧ _ ∧ _))

end Time

structure Time where
  seconds : Int
  nanos : Nat
  valid : Time.Valid seconds nanos
deriving DecidableEq, Repr

namespace Time

instance : Inhabited Time := ⟨⟨0, 0, by decide⟩⟩

def ofParts? (seconds : Int) (nanos : Nat) : Option Time :=
  if h : Valid seconds nanos then some ⟨seconds, nanos, h⟩ else none

end Time

end ChainIndex
