/-!
# Doubles

A finite double is a natural number, the significand, times a power of two, with a sign in its first
bit.

* `significand`, `place`: the value is `significand · 2 ^ (place - 1075)`.
-/

namespace ChainIndex.Double

def isNegative (bits : UInt64) : Bool :=
  0x8000000000000000 ≤ bits.toNat

/-- The bits after the sign. -/
def magnitude (bits : UInt64) : Nat :=
  bits.toNat % 0x8000000000000000

/-- The stored exponent. -/
def biased (magnitude : Nat) : Nat :=
  magnitude / 0x10000000000000

/-- The stored part of the significand. -/
def fraction (magnitude : Nat) : Nat :=
  magnitude % 0x10000000000000

/-- The significand; its leading bit is stored only for the smallest numbers. -/
def significand (magnitude : Nat) : Nat :=
  if biased magnitude = 0 then fraction magnitude else fraction magnitude + 0x10000000000000

def place (magnitude : Nat) : Nat :=
  max (biased magnitude) 1

end ChainIndex.Double
