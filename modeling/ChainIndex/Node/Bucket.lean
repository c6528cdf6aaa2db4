import ChainIndex.Activity.Basic
import ChainIndex.Number.Double

/-!
# Token buckets

A bucket of tokens limits the rate of requests: each one takes a token, and tokens come back at a
constant rate until the bucket is full. The arithmetic is a parameter, so that the same bucket can
count in doubles or in exact fractions.

* `Bucket.tryTake`: takes tokens if there are enough of them.
* `Bucket.delay`, `Bucket.wait`: how long it takes until there are.
* `Bucket.request`: takes one token, or says when there should be one.
* `Bucket.acquire`: waits for one token, unless a deadline comes first.
-/

namespace ChainIndex

/-- Numbers that tokens and seconds are counted in. -/
class Quantity (τ : Type) where
  ofNat : Nat → τ
  add : τ → τ → τ
  sub : τ → τ → τ
  mul : τ → τ → τ
  div : τ → τ → τ
  /-- Whether the first number is at most the second. -/
  le : τ → τ → Bool
  /-- A span in seconds. -/
  seconds : Span → τ
  /-- A number of seconds as a span. -/
  span : τ → Span

/-- The size of a bucket and the tokens that come back in a second. -/
structure Rate (τ : Type) where
  capacity : τ
  refill : τ
deriving Repr

/-- A bucket as it was when it was last looked at. -/
structure Bucket (τ : Type) where
  rate : Rate τ
  tokens : τ
  seen : Instant
deriving Repr

variable {τ : Type} [Quantity τ]

open Quantity

/-- So many requests in a second, at once or spread over it; at least one. -/
def Rate.perSecond (n : Nat) : Rate τ :=
  { capacity := ofNat (max n 1), refill := ofNat (max n 1) }

/-- The rate that applies unless another one is asked for. -/
def Rate.standard : Rate τ :=
  .perSecond 33

/-- What comes of a request for one token. -/
inductive Grant where
  | granted
  | refused
  /-- There should be a token at an instant. -/
  | later (instant : Instant)
deriving DecidableEq, Repr

namespace Bucket

def full (rate : Rate τ) (now : Instant) : Bucket τ :=
  { rate, tokens := rate.capacity, seen := now }

/-- The bucket with the tokens that came back since. -/
def refilled (b : Bucket τ) (now : Instant) : Bucket τ :=
  let tokens := add b.tokens (mul (seconds (now - b.seen)) b.rate.refill)
  { b with
    tokens := if le tokens b.rate.capacity then tokens else b.rate.capacity
    seen := max b.seen now }

/-- Takes tokens if there are enough of them. -/
def tryTake (b : Bucket τ) (cost : τ) (now : Instant) : Bool × Bucket τ :=
  let b := b.refilled now
  if le cost b.tokens then (true, { b with tokens := sub b.tokens cost }) else (false, b)

/-- In how many seconds there are enough tokens, unless none come back. -/
def delay (b : Bucket τ) (cost : τ) (now : Instant) : Option τ × Bucket τ :=
  let b := b.refilled now
  let missing := sub cost b.tokens
  let zero : τ := ofNat 0
  if le missing zero then (some zero, b)
  else if le b.rate.refill zero then (none, b)
  else (some (div missing b.rate.refill), b)

/-- The same as a span. -/
def wait (b : Bucket τ) (cost : τ) (now : Instant) : Option Span × Bucket τ :=
  ((b.delay cost now).1.map span, (b.delay cost now).2)

/-- A request for one token. The wait for it takes at least as long as a timer can measure, and may
not end after the deadline. -/
def request (b : Bucket τ) (deadline : Deadline) (now : Instant) : Grant × Bucket τ :=
  match b.tryTake (ofNat 1) now with
  | (true, b) => (.granted, b)
  | (false, b) =>
    match b.wait (ofNat 1) now with
    | (none, b) => (.refused, b)
    | (some wait, b) =>
      let wait := max wait Clock.millisecond
      if Clock.isPast deadline (now + wait) then (.refused, b)
      else (.later (Clock.after now wait), b)

/-- Requests that are made without a deadline. As every wait takes a millisecond at least, they are
enough for half a billion years. -/
def patience : Nat := UInt64.size

/-- How often a token is requested at most. Every wait takes a millisecond at least, so a deadline
bounds their number. -/
def tries (deadline : Deadline) (now : Instant) : Nat :=
  match deadline with
  | none => patience
  | some d => (d - now) / Clock.millisecond + 2

section Acquire

variable {σ : Type} [Clocked σ] (bucket : σ → Bucket τ) (withBucket : Bucket τ → σ → σ)
  (deadline : Deadline)

/-- Requests one token of a bucket in the world a number of times, waiting in between. Others may
take the token that was waited for. -/
def acquireIn : Nat → Activity σ Bool
  | 0 => return false
  | tries + 1 => do
    let s ← get
    let (grant, b) := (bucket s).request deadline (Clocked.now s)
    set (withBucket b s)
    match grant with
    | .granted => return true
    | .refused => return false
    | .later t =>
      Activity.await t
      acquireIn tries

/-- Waits for one token. -/
def acquire : Activity σ Bool := do
  acquireIn bucket withBucket deadline (tries deadline (Clocked.now (← get)))

end Acquire

end Bucket

/-- The integer nearest to `n / d`, the even one of two. -/
def roundToEven (n d : Nat) : Nat :=
  let q := n / d
  let rest := 2 * (n % d)
  if rest < d || (rest == d && q % 2 == 0) then q else q + 1

/-- The span of a number of seconds that is a finite double, to the nearest nanosecond. -/
def spanOfSeconds (f : Float) : Span :=
  let magnitude := Double.magnitude f.toBits
  let e := Double.place magnitude
  roundToEven (Double.significand magnitude * Nat.pow 2 (e - 1075) * 1000000000)
    (Nat.pow 2 (1075 - e))

instance : Quantity Float where
  ofNat := Float.ofNat
  add := (· + ·)
  sub := (· - ·)
  mul := (· * ·)
  div := (· / ·)
  le a b := a ≤ b
  seconds s := Float.ofNat (s / 1000000000) + Float.ofNat (s % 1000000000) / 1000000000.0
  span := spanOfSeconds

end ChainIndex
