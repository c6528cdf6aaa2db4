import ChainIndex.Clock

/-!
# Repeating failed requests

The pause before the next attempt grows by one step with every attempt.
-/

namespace ChainIndex

structure Retry where
  /-- How many attempts are made at most. -/
  attempts : Nat := 3
  step : Span := Clock.ofMillis 500
deriving DecidableEq, Repr

namespace Retry

/-- Whether another attempt may follow so many failed ones. -/
def allows (r : Retry) (failed : Nat) : Bool :=
  failed < r.attempts

/-- The pause after so many failed attempts, if another one may follow. -/
def pause? (r : Retry) (failed : Nat) : Option Span :=
  if r.allows failed then some (r.step * failed) else none

end Retry

end ChainIndex
