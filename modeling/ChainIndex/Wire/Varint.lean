/-!
# Variable-length integers

Seven bits a byte, the lowest first; every byte but the last has its high bit set. A number has at
most 64 bits, so the tenth byte is 0 or 1.

* `Varint.read?_write`: reading inverts writing and leaves what follows.
-/

namespace ChainIndex.Wire

abbrev Bytes := List UInt8

namespace Varint

def write (n : Nat) : Bytes :=
  if n < 128 then [UInt8.ofNat n] else UInt8.ofNat (n % 128 + 128) :: write (n / 128)
termination_by n
decreasing_by omega

/-- Reads a number of at most `n` bytes, the last of which may only be 0 or 1 when it is needed. -/
def readUpTo? : Nat → Bytes → Option (Nat × Bytes)
  | 0, _ => none
  | _, [] => none
  | n + 1, b :: rest =>
    if b < 128 then
      if n = 0 ∧ 2 ≤ b then none else some (b.toNat, rest)
    else (readUpTo? n rest).map fun (v, rest) => (b.toNat % 128 + 128 * v, rest)

/-- The number at the start of the bytes, and the bytes after it. -/
def read? (bytes : Bytes) : Option (Nat × Bytes) :=
  readUpTo? 10 bytes

theorem readUpTo?_write (n k : Nat) (rest : Bytes) (h : n < 2 * Nat.pow 128 k) :
    readUpTo? (k + 1) (write n ++ rest) = some (n, rest) := by
  induction k generalizing n with
  | zero =>
    have hn : n < 2 := by simpa using h
    have hw : write n = [UInt8.ofNat n] := by rw [write]; simp; omega
    have : n = 0 ∨ n = 1 := by omega
    rcases this with rfl | rfl <;> simp [hw, readUpTo?]
  | succ k ih =>
    by_cases hs : n < 128
    · have hw : write n = [UInt8.ofNat n] := by rw [write]; simp [hs]
      have hm : n % 256 = n := Nat.mod_eq_of_lt (by omega)
      simp [hw, readUpTo?, UInt8.lt_iff_toNat_lt, hm, hs]
    · have hw : write n = UInt8.ofNat (n % 128 + 128) :: write (n / 128) := by
        rw [write]; simp [hs]
      have hm : (n % 128 + 128) % 256 = n % 128 + 128 := Nat.mod_eq_of_lt (by omega)
      have hlt : ¬ (UInt8.ofNat (n % 128 + 128) < 128) := by
        simp only [UInt8.lt_iff_toNat_lt, UInt8.toNat_ofNat', Nat.reducePow, hm]
        simp
      have hd : n / 128 < 2 * Nat.pow 128 k := by
        rw [Nat.div_lt_iff_lt_mul (by omega)]
        have hp : Nat.pow 128 (k + 1) = Nat.pow 128 k * 128 := rfl
        omega
      simp only [hw, List.cons_append, readUpTo?, hlt, if_false, ih _ hd, Option.map_some,
        UInt8.toNat_ofNat', Nat.reducePow, hm]
      congr 2; omega

theorem read?_write (n : Nat) (rest : Bytes) (h : n < UInt64.size) :
    read? (write n ++ rest) = some (n, rest) :=
  readUpTo?_write n 9 rest (by simpa using h)

end Varint

end ChainIndex.Wire
