/-!
# Clocks

Points in time and spans count nanoseconds. Timers go off at whole milliseconds, and none runs for
longer than thirty years.

* `Clock.after`: when a timer goes off; less than a millisecond late, and too early only if the wait
  is longer than any timer runs.
* `Clocked`: worlds in which time passes.
-/

namespace ChainIndex

/-- Nanoseconds since the program started. -/
abbrev Instant := Nat

/-- Nanoseconds. -/
abbrev Span := Nat

/-- When a call has to be over, if ever. -/
abbrev Deadline := Option Instant

namespace Clock

/-- The resolution of timers. -/
def millisecond : Span := 1000000

def ofMillis (n : Nat) : Span := n * millisecond

def toMillis (s : Span) : Nat := s / millisecond

def ofSeconds (n : Nat) : Span := n * 1000000000

/-- As long as a timer runs at most. -/
def longest : Span := ofSeconds (30 * 365 * 24 * 60 * 60)

/-- When a timer set at `now` goes off that should not go off before `wait` has passed. -/
def after (now : Instant) (wait : Span) : Instant :=
  (now + min wait longest + (millisecond - 1)) / millisecond * millisecond

theorem min_le_after (now wait : Nat) : now + min wait longest ≤ after now wait := by
  unfold after millisecond
  omega

theorem after_lt (now wait : Nat) : after now wait < now + wait + millisecond := by
  have h : min wait longest ≤ wait := Nat.min_le_left _ _
  unfold after
  generalize min wait longest = w at h
  unfold millisecond
  show (_ : Nat) < _
  omega

/-- What is left of a span when a deadline may cut it short; nothing at the deadline itself. -/
def remaining? (span : Span) (deadline : Deadline) (now : Instant) : Option Span :=
  match deadline with
  | none => some span
  | some d => if d ≤ now then none else some (min span (d - now))

/-- Whether a wait would end after the deadline. -/
def isPast (deadline : Deadline) (instant : Instant) : Bool :=
  deadline.any (· < instant)

end Clock

/-- Worlds in which time passes. -/
class Clocked (σ : Type) where
  now : σ → Instant
  /-- The same world at another instant. -/
  goTo : Instant → σ → σ
  now_goTo : ∀ t s, now (goTo t s) = t

namespace Clocked

variable {σ : Type} [Clocked σ]

/-- The world at an instant, or later if that has passed already. -/
def reach (t : Instant) (s : σ) : σ :=
  if now s < t then goTo t s else s

theorem now_reach (t : Instant) (s : σ) : now (reach t s) = max (now s) t := by
  unfold reach
  split
  · rw [now_goTo]
    exact (Nat.max_eq_right (Nat.le_of_lt ‹_›)).symm
  · exact (Nat.max_eq_left (Nat.le_of_not_lt ‹_›)).symm

end Clocked

end ChainIndex
