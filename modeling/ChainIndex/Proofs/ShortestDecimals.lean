import ChainIndex.Text.Shortest
import Mathlib.Algebra.Order.Field.Power
import Mathlib.Algebra.Order.Field.Rat
import Mathlib.Data.Nat.Digits.Defs
import Mathlib.Tactic.FieldSimp
import Mathlib.Tactic.Linarith
import Mathlib.Tactic.LinearCombination
import Mathlib.Tactic.NormNum
import Mathlib.Tactic.Ring

/-!
# The shortest decimal of a double rounds to it

A decimal stands for the double nearest to it, so it may be anywhere between the midpoints to the doubles
before and after (`Double.Nearest`). The comparisons are made in natural numbers over one denominator
(`Shortest.hits_iff`), with a quarter of a unit in the last place as the unit.

* `Shortest.seventeen_digits`: one of the multiples next to a double hits when seventeen digits are
  allowed, because the midpoints are further apart than a unit of the seventeenth digit.
* `Shortest.nearest_ofBits`: **the shortest decimal of a positive double rounds to it.**
-/

namespace ChainIndex

namespace Double

/-- The number that the bits after the sign stand for. -/
def toRat (m : Nat) : ℚ :=
  significand m * 2 ^ ((place m : ℤ) - 1075)

/-- A quarter of a unit in the last place. -/
def quarter (m : Nat) : ℚ :=
  2 ^ ((place m : ℤ) - 1077)

/-- The double is the nearest one to the number: this lies between the midpoints to the doubles before and
after, and on a midpoint only if the double is the even one. -/
def Nearest (m : Nat) (q : ℚ) : Prop :=
  let low := (toRat (m - 1) + toRat m) / 2
  let high := (toRat m + toRat (m + 1)) / 2
  low ≤ q ∧ q ≤ high ∧ (m % 2 = 1 → low < q ∧ q < high)

theorem quarter_pos (m : Nat) : 0 < quarter m :=
  zpow_pos (by norm_num) _

theorem toRat_eq (m : Nat) : toRat m = 4 * significand m * quarter m := by
  have hplace : ((place m : ℤ) - 1075) = ((place m : ℤ) - 1077) + 2 := by ring
  rw [toRat, quarter, hplace, zpow_add₀ (by norm_num)]
  ring

/-- The double has the least significand for its exponent, and there are doubles with a smaller one. -/
abbrev IsBinade (m : Nat) : Prop :=
  fraction m = 0 ∧ 1 < biased m

theorem quarter_succ (m : Nat) :
    quarter (m + 1) = if IsBinade (m + 1) then 2 * quarter m else quarter m := by
  split_ifs with h
  · have hplace : place (m + 1) = place m + 1 := by
      unfold IsBinade fraction biased at h
      unfold place biased
      omega
    have hexponent : ((place (m + 1) : ℤ) - 1077) = ((place m : ℤ) - 1077) + 1 := by omega
    rw [quarter, quarter, hexponent, zpow_add₀ (by norm_num)]
    ring
  · have hplace : place (m + 1) = place m := by
      unfold IsBinade fraction biased at h
      unfold place biased
      omega
    rw [quarter, quarter, hplace]

theorem significand_succ (m : Nat) : significand m + 1 =
    if IsBinade (m + 1) then 2 * significand (m + 1) else significand (m + 1) := by
  split_ifs with h
  · unfold IsBinade fraction biased at h
    unfold significand fraction biased
    split_ifs <;> omega
  · unfold IsBinade fraction biased at h
    unfold significand fraction biased
    split_ifs <;> omega

/-- **The next double is one unit in the last place away.** -/
theorem toRat_succ (m : Nat) : toRat (m + 1) = toRat m + 4 * quarter m := by
  have hquarter := quarter_succ m
  have hsignificand := significand_succ m
  rw [toRat_eq, toRat_eq]
  split_ifs at hquarter hsignificand
  · have hdouble : (significand m : ℚ) + 1 = 2 * significand (m + 1) := by exact_mod_cast hsignificand
    rw [hquarter]
    linear_combination (-4 * quarter m) * hdouble
  · have hone : (significand m : ℚ) + 1 = significand (m + 1) := by exact_mod_cast hsignificand
    rw [hquarter]
    linear_combination (-4 * quarter m) * hone

/-- The double before is so many quarters away. -/
def quartersBelow (m : Nat) : ℕ :=
  if IsBinade m then 2 else 4

theorem toRat_pred {m : Nat} (h : 0 < m) : toRat (m - 1) = toRat m - quartersBelow m * quarter m := by
  obtain ⟨n, rfl⟩ : ∃ n, m = n + 1 := ⟨m - 1, by omega⟩
  have hquarter := quarter_succ n
  rw [Nat.add_sub_cancel, toRat_succ, quartersBelow]
  split_ifs at hquarter ⊢
  · rw [hquarter]
    push_cast
    ring
  · rw [hquarter]
    push_cast
    ring

theorem toRat_pred_lt {m : Nat} (h : 0 < m) : toRat (m - 1) < toRat m := by
  have hquarters : (0 : ℚ) < quartersBelow m := by
    unfold quartersBelow
    split_ifs <;> norm_num
  rw [toRat_pred h]
  linarith [mul_pos hquarters (quarter_pos m)]

theorem significand_lt (m : Nat) : significand m < 2 ^ 53 := by
  unfold significand fraction
  split_ifs <;> omega

theorem significand_of_isBinade {m : Nat} (h : IsBinade m) : significand m = 2 ^ 52 := by
  unfold IsBinade at h
  unfold significand
  rw [if_neg (by omega), h.1]
  norm_num

theorem significand_pos {m : Nat} (h : 0 < m) : 0 < significand m := by
  unfold significand fraction biased
  split_ifs <;> omega

theorem significand_mod_two (m : Nat) : significand m % 2 = m % 2 := by
  unfold significand fraction
  split_ifs <;> omega

end Double

namespace Text.Shortest

variable {i : Interval} {e : ℤ} {d n : ℕ}

/-- What both sides of a comparison are multiplied by. -/
def Interval.scale (i : Interval) (e : ℤ) : ℚ :=
  10 ^ (-e).toNat * i.unit

theorem scale_pos (hunit : 0 < i.unit) : 0 < i.scale e := by
  have hunit' : (0 : ℚ) < i.unit := Nat.cast_pos.2 hunit
  unfold Interval.scale
  positivity

theorem onGrid_fst : ((onGrid i e d n).1 : ℚ) = d * 10 ^ e * i.scale e := by
  have hgrid : (10 : ℚ) ^ e * 10 ^ (-e).toNat = 10 ^ e.toNat := by
    rw [← zpow_natCast, ← zpow_natCast, ← zpow_add₀ (by norm_num)]
    congr 1
    omega
  simp only [onGrid, Nat.pow_eq, Interval.scale]
  push_cast
  rw [← hgrid]
  ring

theorem onGrid_snd (hunit : 0 < i.unit) : ((onGrid i e d n).2 : ℚ) = n / i.unit * i.scale e := by
  have hunit' : (0 : ℚ) < i.unit := Nat.cast_pos.2 hunit
  simp only [onGrid, Nat.pow_eq, Interval.scale]
  push_cast
  field_simp

/-- **A multiple hits if it lies between the ends.** -/
theorem hits_iff (hunit : 0 < i.unit) : hits i e d = true ↔
    if i.closed then (i.low : ℚ) / i.unit ≤ d * 10 ^ e ∧ (d * 10 ^ e : ℚ) ≤ i.high / i.unit
    else (i.low : ℚ) / i.unit < d * 10 ^ e ∧ (d * 10 ^ e : ℚ) < i.high / i.unit := by
  have hscale := scale_pos (e := e) hunit
  have hle (n : ℕ) : (onGrid i e d n).2 ≤ (onGrid i e d i.low).1 ↔ (n : ℚ) / i.unit ≤ d * 10 ^ e := by
    rw [← Nat.cast_le (α := ℚ), onGrid_fst, onGrid_snd hunit, mul_le_mul_iff_left₀ hscale]
  have hge (n : ℕ) : (onGrid i e d i.low).1 ≤ (onGrid i e d n).2 ↔ (d * 10 ^ e : ℚ) ≤ n / i.unit := by
    rw [← Nat.cast_le (α := ℚ), onGrid_fst, onGrid_snd hunit, mul_le_mul_iff_left₀ hscale]
  unfold hits
  cases i.closed
  · simp [← not_le, hle, hge]
  · simp [hle, hge]

theorem hits_of_lt (hunit : 0 < i.unit) (hlow : (i.low : ℚ) / i.unit < d * 10 ^ e)
    (hhigh : (d * 10 ^ e : ℚ) < i.high / i.unit) : hits i e d = true := by
  rw [hits_iff hunit]
  split_ifs
  · exact ⟨hlow.le, hhigh.le⟩
  · exact ⟨hlow, hhigh⟩

/-- The multiples on both sides of a number. -/
theorem between_multiples (hunit : 0 < i.unit) :
    let d := (onGrid i e 1 i.value).2 / (onGrid i e 1 i.value).1
    (d * 10 ^ e : ℚ) ≤ i.value / i.unit ∧ (i.value / i.unit : ℚ) < (d + 1 : ℕ) * 10 ^ e := by
  intro d
  have hscale := scale_pos (e := e) hunit
  have hgrid : 0 < (onGrid i e 1 i.value).1 :=
    Nat.mul_pos (Nat.mul_pos (by decide) (Nat.pow_pos (by decide))) hunit
  have hgrid_mul (k : ℕ) : (onGrid i e k i.value).1 = k * (onGrid i e 1 i.value).1 := by
    simp only [onGrid]
    ring
  have hbelow : (onGrid i e d i.value).1 ≤ (onGrid i e 1 i.value).2 := by
    rw [hgrid_mul]
    exact Nat.div_mul_le_self _ _
  have habove : (onGrid i e 1 i.value).2 < (onGrid i e (d + 1) i.value).1 := by
    rw [hgrid_mul]
    exact Nat.lt_mul_of_div_lt (Nat.lt_succ_self d) hgrid
  rw [← Nat.cast_le (α := ℚ), onGrid_fst, onGrid_snd hunit, mul_le_mul_iff_left₀ hscale] at hbelow
  rw [← Nat.cast_lt (α := ℚ), onGrid_fst, onGrid_snd hunit, mul_lt_mul_iff_left₀ hscale] at habove
  exact ⟨hbelow, habove⟩

/-- What is chosen hits. -/
theorem hits_of_withDigits {p : ℕ × ℤ} (h : withDigits i n = some p) : hits i p.2 p.1 = true := by
  unfold withDigits at h
  simp only at h
  split_ifs at h with hboth hbelow habove hfirst <;> cases h
  all_goals simp_all

/-- Something is chosen if a multiple next to the value hits. -/
theorem not_hits_of_withDigits (hnone : withDigits i n = none) :
    let e := magnitude i - n
    let d := (onGrid i e 1 i.value).2 / (onGrid i e 1 i.value).1
    hits i e d = false ∧ hits i e (d + 1) = false := by
  unfold withDigits at hnone
  simp only at hnone
  split_ifs at hnone with hboth hbelow habove
  exact ⟨Bool.eq_false_iff.2 hbelow, Bool.eq_false_iff.2 habove⟩

/-- Where no multiple is chosen, the interval fits between two of them. -/
theorem gap_le_of_withDigits (hunit : 0 < i.unit) (hlow : (i.low : ℚ) / i.unit < i.value / i.unit)
    (hhigh : (i.value : ℚ) / i.unit < i.high / i.unit) (hnone : withDigits i n = none) :
    (i.high : ℚ) / i.unit - i.low / i.unit ≤ 10 ^ (magnitude i - n) := by
  obtain ⟨hbelow, habove⟩ := between_multiples (i := i) (e := magnitude i - n) hunit
  obtain ⟨hmiss, hmiss'⟩ := not_hits_of_withDigits hnone
  have hleft := mt (hits_of_lt hunit · (hbelow.trans_lt hhigh)) (Bool.eq_false_iff.1 hmiss)
  have hright := mt (hits_of_lt hunit (hlow.trans habove)) (Bool.eq_false_iff.1 hmiss')
  push_cast at hright
  rw [not_lt] at hleft hright
  linarith

/-! ## The interval of a double -/

section OfBits

open Double

variable {m : ℕ}

theorem unit_pos (m : ℕ) : 0 < (Interval.ofBits m).unit :=
  Nat.pow_pos (by decide)

/-- Everything is counted in quarters of a unit in the last place. -/
theorem quarter_eq (m : ℕ) :
    (Nat.pow 2 (place m - 1077) : ℕ) / ((Interval.ofBits m).unit : ℚ) = quarter m := by
  have hsplit : (2 : ℚ) ^ ((place m : ℤ) - 1077) * 2 ^ (1077 - place m) = 2 ^ (place m - 1077) := by
    rw [← zpow_natCast, ← zpow_natCast, ← zpow_add₀ (by norm_num)]
    congr 1
    omega
  rw [quarter, div_eq_iff (Nat.cast_ne_zero.2 (unit_pos m).ne')]
  simp only [Interval.ofBits, Nat.pow_eq]
  push_cast
  rw [hsplit]

theorem value_ofBits (m : ℕ) :
    ((Interval.ofBits m).value : ℚ) / (Interval.ofBits m).unit = toRat m := by
  rw [toRat_eq, ← quarter_eq]
  simp only [Interval.ofBits]
  push_cast
  ring

theorem high_ofBits (m : ℕ) : ((Interval.ofBits m).high : ℚ) / (Interval.ofBits m).unit =
    (toRat m + toRat (m + 1)) / 2 := by
  rw [toRat_succ, toRat_eq, ← quarter_eq]
  simp only [Interval.ofBits]
  push_cast
  ring

theorem low_ofBits (h : 0 < m) : ((Interval.ofBits m).low : ℚ) / (Interval.ofBits m).unit =
    (toRat (m - 1) + toRat m) / 2 := by
  have hpos := significand_pos h
  rw [toRat_pred h, toRat_eq, ← quarter_eq, quartersBelow]
  simp only [Interval.ofBits]
  split_ifs
  · rw [Nat.cast_mul, Nat.cast_sub (by omega)]
    push_cast
    ring
  · rw [Nat.cast_mul, Nat.cast_sub (by omega)]
    push_cast
    ring

/-- **What hits the interval of a double rounds to the double.** -/
theorem nearest_of_hits (hm : 0 < m) (h : hits (Interval.ofBits m) e d = true) :
    Nearest m (d * 10 ^ e) := by
  have hends := (hits_iff (unit_pos m)).1 h
  have hclosed : (Interval.ofBits m).closed = decide (m % 2 = 0) := by
    rw [Interval.ofBits, significand_mod_two]
  rw [low_ofBits hm, high_ofBits, hclosed] at hends
  unfold Nearest
  by_cases heven : m % 2 = 0
  · rw [if_pos (decide_eq_true heven)] at hends
    exact ⟨hends.1, hends.2, fun hodd => by omega⟩
  · rw [if_neg (by simpa using heven)] at hends
    exact ⟨hends.1.le, hends.2.le, fun _ => hends⟩

/-! ## Seventeen digits are enough -/

theorem toRat_pos (h : 0 < m) : 0 < toRat m := by
  rw [toRat_eq]
  have hsignificand : (0 : ℚ) < significand m := Nat.cast_pos.2 (significand_pos h)
  have hquarter := quarter_pos m
  positivity

theorem pow_length_toDigits_le {n : ℕ} (h : 0 < n) : 10 ^ ((Nat.toDigits 10 n).length - 1) ≤ n := by
  by_contra hless
  rcases Nat.eq_zero_or_pos ((Nat.toDigits 10 n).length - 1) with hone | hmore
  · rw [hone] at hless
    omega
  · have hlength := Nat.toDigits_length 10 n _ hmore (Nat.not_le.1 hless)
    omega

/-- No double is so small that its first digit is not found. -/
theorem unit_le_scaled (h : 0 < m) {k : ℕ} (hk : 1076 ≤ 3 * k) :
    (Interval.ofBits m).unit ≤ (Interval.ofBits m).value * 10 ^ k := by
  have hquarter : 1 ≤ Nat.pow 2 (place m - 1077) := Nat.pow_pos (by decide)
  have hvalue : 0 < (Interval.ofBits m).value :=
    Nat.mul_pos (Nat.mul_pos (by decide) (significand_pos h)) hquarter
  have hplace : 1 ≤ place m := Nat.le_max_right _ _
  calc (Interval.ofBits m).unit
      ≤ 2 ^ (3 * k) := Nat.pow_le_pow_right (by decide) (by omega)
    _ = (2 ^ 3) ^ k := pow_mul 2 3 k
    _ ≤ 10 ^ k := Nat.pow_le_pow_left (by decide) k
    _ ≤ (Interval.ofBits m).value * 10 ^ k := Nat.le_mul_of_pos_left _ hvalue

/-- The first digit of a double is not beyond it. -/
theorem pow_magnitude_le (h : 0 < m) : (10 : ℚ) ^ (magnitude (Interval.ofBits m) - 1) ≤ toRat m := by
  have hunit : (0 : ℚ) < (Interval.ofBits m).unit := Nat.cast_pos.2 (unit_pos m)
  rw [← value_ofBits, le_div_iff₀ hunit]
  unfold magnitude
  by_cases hwhole : (Interval.ofBits m).unit ≤ (Interval.ofBits m).value
  · -- there are as many digits as the whole part has
    rw [if_pos hwhole]
    have hpos := Nat.div_pos hwhole (unit_pos m)
    have hpow := pow_length_toDigits_le hpos
    have hlength : 0 < (Nat.toDigits 10 ((Interval.ofBits m).value / (Interval.ofBits m).unit)).length :=
      Nat.length_toDigits_pos
    rw [show ∀ n : ℕ, 0 < n → (n : ℤ) - 1 = (n - 1 : ℕ) from fun n hn => by omega, zpow_natCast]
    · exact_mod_cast (Nat.mul_le_mul_right _ hpow).trans (Nat.div_mul_le_self _ _)
    · exact hlength
  · rw [if_neg hwhole]
    split
    · next k hk =>
      have hfound : (Interval.ofBits m).unit ≤ (Interval.ofBits m).value * 10 ^ (k + 1) := by
        simpa using List.find?_some hk
      have hcast : ((Interval.ofBits m).unit : ℚ) ≤ (Interval.ofBits m).value * 10 ^ (k + 1) := by
        exact_mod_cast hfound
      rw [show (-(k : ℤ) - 1) = -((k + 1 : ℕ) : ℤ) by push_cast; ring, zpow_neg, zpow_natCast,
        inv_mul_le_iff₀ (by positivity), mul_comm]
      exact hcast
    · next hnone =>
      -- no double is so small
      obtain ⟨k, hrange, hk⟩ : ∃ k ∈ List.range 400, 1076 ≤ 3 * (k + 1) := ⟨399, by simp, by decide⟩
      exact absurd (decide_eq_true (unit_le_scaled h hk)) (List.find?_eq_none.1 hnone k hrange)

/-- The midpoints around a double are more than a unit of its seventeenth digit apart. -/
theorem seventeenth_lt_gap (h : 0 < m) :
    (10 : ℚ) ^ (magnitude (Interval.ofBits m) - 17) < (toRat (m + 1) - toRat (m - 1)) / 2 := by
  have hquarter := quarter_pos m
  have hfirst := pow_magnitude_le h
  have hsplit : (10 : ℚ) ^ (magnitude (Interval.ofBits m) - 1) =
      10 ^ (magnitude (Interval.ofBits m) - 17) * 10 ^ 16 := by
    rw [← zpow_natCast, ← zpow_add₀ (by norm_num)]
    congr 1
    push_cast
    ring
  rw [hsplit, toRat_eq] at hfirst
  have hlt : (significand m : ℚ) < 2 ^ 53 := by exact_mod_cast significand_lt m
  rw [toRat_succ, toRat_pred h, quartersBelow]
  split_ifs with hbinade
  · -- the gap below is half as wide, but the significand is the least
    have heq : (significand m : ℚ) = 2 ^ 52 := by exact_mod_cast significand_of_isBinade hbinade
    rw [heq] at hfirst
    push_cast
    linarith
  · have hbound := mul_lt_mul_of_pos_right hlt hquarter
    push_cast
    linarith

/-- **Seventeen digits are enough**: no gap between multiples is as wide as the interval of a double. -/
theorem seventeen_digits (h : 0 < m) : withDigits (Interval.ofBits m) 17 ≠ none := by
  intro hnone
  have hgap := seventeenth_lt_gap h
  have hnext : toRat m < toRat (m + 1) := by
    rw [toRat_succ]
    linarith [quarter_pos m]
  have hprevious := toRat_pred_lt h
  have hwide := gap_le_of_withDigits (unit_pos m)
    (by rw [low_ofBits h, value_ofBits]; linarith) (by rw [high_ofBits, value_ofBits]; linarith) hnone
  rw [low_ofBits h, high_ofBits] at hwide
  push_cast at hwide
  linarith

/-! ## The shortest decimal -/

theorem dropZeros_value (fuel : ℕ) (p : ℕ × ℤ) :
    ((dropZeros fuel p).1 * 10 ^ (dropZeros fuel p).2 : ℚ) = p.1 * 10 ^ p.2 := by
  induction fuel generalizing p with
  | zero => rfl
  | succ fuel ih =>
    obtain ⟨d, e⟩ := p
    rw [dropZeros]
    split_ifs with hzero
    · have hten : (d : ℚ) = (d / 10 : ℕ) * 10 := by
        exact_mod_cast (Nat.div_mul_cancel (Nat.dvd_of_mod_eq_zero hzero)).symm
      rw [ih, hten, zpow_add_one₀ (by norm_num)]
      ring
    · rfl

theorem nearest_pos (h : 0 < m) {q : ℚ} (hq : Nearest m q) : 0 < q := by
  have hlow : 0 ≤ toRat (m - 1) := mul_nonneg (Nat.cast_nonneg _) (zpow_nonneg (by norm_num) _)
  have hvalue := toRat_pos h
  linarith [hq.1]

/-- **The shortest decimal of a positive double rounds to it.** -/
theorem nearest_ofBits (h : 0 < m) : Nearest m ((ofBits m).1 * 10 ^ (ofBits m).2) := by
  unfold ofBits
  dsimp only
  split
  · next p hp =>
    obtain ⟨n, -, hn⟩ := List.exists_of_findSome?_eq_some hp
    rw [dropZeros_value]
    exact nearest_of_hits h (hits_of_withDigits hn)
  · next hnone =>
    exact absurd (List.findSome?_eq_none_iff.1 hnone 16 (by simp)) (seventeen_digits h)

theorem ofBits_pos (h : 0 < m) : 0 < (ofBits m).1 := by
  have hpos := nearest_pos h (nearest_ofBits h)
  by_contra hzero
  rw [Nat.eq_zero_of_not_pos hzero] at hpos
  simp at hpos

end OfBits

end Text.Shortest
end ChainIndex
