import ChainIndex.Proofs.DecimalGrammar
import Mathlib.Algebra.Order.Field.Rat
import Mathlib.Tactic.FieldSimp
import Mathlib.Tactic.NormNum

/-!
# Decimal amounts keep their value

An amount is written as a plain decimal again (`Amount.exists_render`): zeros in front make room for the
point, and trailing zeros stand for a negative exponent. So writing and reading go through the same grammar,
and what holds of the one text holds of the other.

* `Amount.parseDecimal_decimalText`: **an amount is read back from its text**, with the same mantissa and
  exponent unless the exponent is negative.
* `Amount.parseFixed_written`, `Amount.ofScaled_written`: which decimals have a place in the chain's fixed
  point, and which are its integers.
* `Amount.decimal_values`: all of them keep their value.
-/

namespace ChainIndex.Amount

/-! ## Values -/

/-- The number that an amount stands for. -/
def toRat (a : Amount) : ℚ :=
  a.numeric * 10 ^ (-a.exp.toInt)

/-- The number that a decimal writes. -/
def Decimal.toRat (d : Decimal) : ℚ :=
  d.numeric / 10 ^ d.places

/-! ## Writing -/

theorem ofDigitChars_toDigits (n : Nat) : Nat.ofDigitChars 10 (Nat.toDigits 10 n) 0 = n :=
  Text.value_toDigits n

theorem ofDigitChars_append (s t : List Char) : Nat.ofDigitChars 10 (s ++ t) 0 =
    Nat.ofDigitChars 10 s 0 * 10 ^ t.length + Nat.ofDigitChars 10 t 0 :=
  Text.value_append s t

theorem ofDigitChars_zeros (k : Nat) : Nat.ofDigitChars 10 (List.replicate k '0') 0 = 0 :=
  Text.value_zeros k

/-- The digits of a number with zeros in front, so that there are more of them than places. -/
def padded (n places : Nat) : List Char :=
  List.replicate (places + 1 - (Nat.toDigits 10 n).length) '0' ++ Nat.toDigits 10 n

section Padded

variable (n places : Nat)

theorem lt_length_padded : places < (padded n places).length := by
  rw [padded, List.length_append, List.length_replicate]
  omega

theorem isDigit_padded {c : Char} (h : c ∈ padded n places) : c.isDigit = true := by
  rcases List.mem_append.1 h with h | h
  · exact Text.isDigit_zeros h
  · exact Text.isDigit_of_mem h

theorem ofDigitChars_padded : Nat.ofDigitChars 10 (padded n places) 0 = n := by
  rw [padded, ofDigitChars_append, ofDigitChars_zeros, ofDigitChars_toDigits]
  omega

theorem placePoint_eq : placePoint n places =
    (padded n places).take ((padded n places).length - places) ++
      '.' :: (padded n places).drop ((padded n places).length - places) := by
  have htext : (toString n).toList = Nat.toDigits 10 n := Nat.toList_repr
  rw [placePoint, htext]
  rfl

end Padded

/-- The sign and the size of an integer make it up again. -/
theorem Decimal.numeric_eq {d : Decimal} {numeric : Int} {k : Nat}
    (hnegative : d.negative = decide (numeric < 0))
    (hvalue : Nat.ofDigitChars 10 (d.whole ++ d.fraction) 0 = numeric.natAbs * 10 ^ k) :
    d.numeric = numeric * 10 ^ k := by
  rw [Decimal.numeric, hvalue, hnegative]
  push_cast
  by_cases hneg : numeric < 0
  · simp only [hneg, decide_true, if_true]
    rw [abs_of_neg hneg, neg_mul, neg_neg]
  · simp only [hneg, decide_false, Bool.false_eq_true, if_false]
    rw [abs_of_nonneg (not_lt.1 hneg)]

/-- Without places after the point there is no point, and a negative exponent is written in zeros. -/
theorem exists_render_whole (numeric : Int) {exp : Int} (hexp : exp ≤ 0) : ∃ d : Decimal,
    d.chars = render numeric exp ∧ d.numeric = numeric * 10 ^ (-exp).toNat ∧ d.places = exp.toNat := by
  let digits := Nat.toDigits 10 numeric.natAbs ++ List.replicate exp.natAbs '0'
  have hdigits : ∀ c ∈ digits ++ [], c.isDigit = true := by
    intro c hc
    rw [List.append_nil] at hc
    rcases List.mem_append.1 hc with hc | hc
    · exact Text.isDigit_of_mem hc
    · exact Text.isDigit_zeros hc
  have hne : digits ++ [] ≠ [] := by
    simp [digits, Nat.toDigits_ne_nil]
  have hvalue : Nat.ofDigitChars 10 (digits ++ []) 0 = numeric.natAbs * 10 ^ (-exp).toNat := by
    have hplaces : exp.natAbs = (-exp).toNat := by omega
    rw [List.append_nil, ofDigitChars_append, ofDigitChars_zeros, ofDigitChars_toDigits,
      List.length_replicate, hplaces, Nat.add_zero]
  refine ⟨⟨decide (numeric < 0), digits, none, [], hdigits, hne, nofun, fun _ => rfl⟩, ?_,
    Decimal.numeric_eq rfl hvalue, ?_⟩
  · have htext : (toString numeric.natAbs).toList = Nat.toDigits 10 numeric.natAbs := Nat.toList_repr
    rw [render, if_pos hexp, htext]
    by_cases hneg : numeric < 0 <;> simp [Decimal.chars, signed, hneg, digits]
  · show 0 = exp.toNat
    omega

/-- Otherwise the last digits come after the point. -/
theorem exists_render_split (numeric : Int) {exp : Int} (hexp : 0 < exp) : ∃ d : Decimal,
    d.chars = render numeric exp ∧ d.numeric = numeric * 10 ^ (-exp).toNat ∧ d.places = exp.toNat := by
  let digits := padded numeric.natAbs exp.natAbs
  let split := digits.length - exp.natAbs
  have hsplit : digits.take split ++ digits.drop split = digits := List.take_append_drop _ _
  have hlength : exp.natAbs < digits.length := lt_length_padded _ _
  have hdigits : ∀ c ∈ digits.take split ++ digits.drop split, c.isDigit = true := by
    rw [hsplit]
    exact fun c hc => isDigit_padded _ _ hc
  have hne : digits.take split ++ digits.drop split ≠ [] := by
    rw [hsplit]
    exact List.ne_nil_of_length_pos (Nat.zero_lt_of_lt hlength)
  have hvalue : Nat.ofDigitChars 10 (digits.take split ++ digits.drop split) 0 =
      numeric.natAbs * 10 ^ (-exp).toNat := by
    have hzero : (-exp).toNat = 0 := by omega
    rw [hsplit, ofDigitChars_padded, hzero, pow_zero, Nat.mul_one]
  refine ⟨⟨decide (numeric < 0), digits.take split, some '.', digits.drop split, hdigits, hne,
    by simp [isSeparator], nofun⟩, ?_, Decimal.numeric_eq rfl hvalue, ?_⟩
  · rw [render, if_neg (not_le.2 hexp), placePoint_eq]
    by_cases hneg : numeric < 0 <;> simp [Decimal.chars, signed, hneg, digits, split]
  · show (digits.drop split).length = exp.toNat
    rw [List.length_drop]
    omega

/-- **What is written is a decimal** with the same value. -/
theorem exists_render (numeric exp : Int) : ∃ d : Decimal, d.chars = render numeric exp ∧
    d.numeric = numeric * 10 ^ (-exp).toNat ∧ d.places = exp.toNat := by
  rcases le_or_gt exp 0 with hexp | hexp
  · exact exists_render_whole numeric hexp
  · exact exists_render_split numeric hexp

/-- What stands before the separator of a decimal. -/
def Decimal.front (d : Decimal) : List Char :=
  signed d.negative d.whole

theorem Decimal.chars_eq (d : Decimal) : d.chars = d.front ++ (d.mark.toList ++ d.fraction) := by
  rw [chars, front]
  cases d.negative <;> simp [signed]

theorem Decimal.mem_front {d : Decimal} {c : Char} (h : c ∈ d.front) : c = '-' ∨ c.isDigit = true := by
  rw [front] at h
  cases hsign : d.negative with
  | true =>
    rw [hsign] at h
    exact (List.mem_cons.1 h).imp_right d.isDigit_whole
  | false =>
    rw [hsign] at h
    exact .inr (d.isDigit_whole h)

/-- There are no blanks in a decimal. -/
theorem Decimal.isBlank_of_mem {d : Decimal} {c : Char} (h : c ∈ d.chars) : Text.isBlank c = false := by
  rw [chars_eq, List.mem_append, List.mem_append, Option.mem_toList] at h
  rcases h with hfront | hmark | hfraction
  · rcases mem_front hfront with rfl | hdigit
    · decide
    · exact Text.isBlank_of_isDigit hdigit
  · have hseparator := d.separates c hmark
    rw [isSeparator, Bool.or_eq_true, beq_iff_eq, beq_iff_eq] at hseparator
    rcases hseparator with rfl | rfl <;> decide
  · exact Text.isBlank_of_isDigit (d.isDigit_fraction hfraction)

/-- A decimal by itself has no blanks around it. -/
theorem Decimal.written_ofList (d : Decimal) : d.WrittenIn (String.ofList d.chars) := by
  rw [Decimal.WrittenIn, String.toList_ofList, Text.trim_eq_self fun _ => Decimal.isBlank_of_mem]

/-- **An amount is read back from its text**: a negative exponent is written out in zeros. -/
theorem parseDecimal_render (numeric exp : Int) :
    parseDecimal (String.ofList (render numeric exp)) =
      .ok (numeric * 10 ^ (-exp).toNat, Int32.ofNat exp.toNat) := by
  obtain ⟨d, hchars, hnumeric, hplaces⟩ := exists_render numeric exp
  have hread := parseDecimal_written d.written_ofList
  rwa [hchars, hnumeric, hplaces] at hread

theorem parseDecimal_decimalText {a : Amount} (h : 0 ≤ a.exp) :
    parseDecimal a.decimalText = .ok (a.numeric, a.exp) := by
  have hexp : 0 ≤ a.exp.toInt := Int32.le_iff_toInt_le.1 h
  have hzero : (-a.exp.toInt).toNat = 0 := by omega
  have hsame : Int32.ofNat a.exp.toInt.toNat = a.exp := by
    have hless := a.exp.toInt_lt
    rw [← Int32.toInt_inj, Int32.toInt_ofNat_of_lt (by omega)]
    omega
  rw [decimalText, parseDecimal_render, hzero, hsame, pow_zero, mul_one]

theorem parseDecimal_decimalText_neg {a : Amount} (h : a.exp < 0) :
    parseDecimal a.decimalText = .ok (a.numeric * 10 ^ a.exp.toInt.natAbs, 0) := by
  have hexp : a.exp.toInt < 0 := Int32.lt_iff_toInt_lt.1 h
  have hzero : a.exp.toInt.toNat = 0 := by omega
  have hplaces : (-a.exp.toInt).toNat = a.exp.toInt.natAbs := by omega
  rw [decimalText, parseDecimal_render, hzero, hplaces]
  rfl

/-! ## Reading -/

variable {text currency : String} {a : Amount} {d : Decimal}

theorem parse_of_read {n : Int} {e : Int32} (h : parseDecimal text = .ok (n, e)) :
    parse text currency = .ok { text := Text.trimmed text, numeric := n, exp := e, currency } := by
  rw [parse, h]
  rfl

theorem parse_ok (h : parse text currency = .ok a) : parseDecimal text = .ok (a.numeric, a.exp) := by
  cases hread : parseDecimal text with
  | error e =>
    rw [parse, hread] at h
    cases h
  | ok r =>
    rw [parse_of_read hread] at h
    cases h
    rfl

/-- Whatever is made of a text, nothing is made of one that is no decimal. -/
theorem exists_written_of_bind {f : Int × Int32 → Except Error Amount}
    (h : (parseDecimal text >>= f) = .ok a) : ∃ d : Decimal, d.WrittenIn text := by
  cases hread : parseDecimal text with
  | error e =>
    rw [hread] at h
    cases h
  | ok r =>
    obtain ⟨d, hd, -⟩ := exists_written hread
    exact ⟨d, hd⟩

/-- A decimal has a place in the chain's fixed point if it has no more places than that. -/
theorem parseFixed_written (h : d.WrittenIn text) (hsize : text.utf8ByteSize < 2 ^ 31) :
    parseFixed text currency =
      if d.places ≤ fixedPrecision then
        .ok { text := Text.trimmed text, numeric := d.numeric * 10 ^ (fixedPrecision - d.places),
              exp := Int32.ofNat fixedPrecision, currency }
      else .error (.notNumeric text) := by
  have hplaces := h.toInt_places hsize
  simp only [parseFixed, parseDecimal_written h, bind, Except.bind, hplaces]
  by_cases hfits : d.places ≤ fixedPrecision
  · have hless : ¬(fixedPrecision : Int) < d.places := by omega
    have hscale : ((fixedPrecision : Int) - d.places).toNat = fixedPrecision - d.places := by omega
    rw [if_pos hfits, if_neg hless, hscale]
    simp [pure, Except.pure]
  · have hless : (fixedPrecision : Int) < d.places := by omega
    rw [if_neg hfits, if_pos hless]
    rfl

/-- A decimal is an integer of the chain's fixed point if it has no places. -/
theorem ofScaled_written (h : d.WrittenIn text) (hsize : text.utf8ByteSize < 2 ^ 31)
    (precision : Int32) : ofScaled text precision currency =
      if d.places = 0 then
        .ok { text := String.ofList (render d.numeric precision.toInt), numeric := d.numeric,
              exp := precision, currency }
      else .error (.notNumeric text) := by
  have hplaces := h.toInt_places hsize
  have hzero : Int32.ofNat d.places = 0 ↔ d.places = 0 := by
    rw [← Int32.toInt_inj, hplaces]
    exact Int.ofNat_eq_zero
  simp only [ofScaled, parseDecimal_written h, bind, Except.bind, ne_eq, hzero]
  by_cases hnone : d.places = 0
  · simp [hnone, pure, Except.pure]
  · simp only [hnone, not_false_eq_true, if_true, if_false]
    rfl

/-- The scale makes up for the places that are missing. -/
theorem value_scaled {places precision : Nat} (h : places ≤ precision) (n : Int) :
    ((n * 10 ^ (precision - places) : Int) : ℚ) / 10 ^ precision = n / 10 ^ places := by
  obtain ⟨missing, rfl⟩ := Nat.exists_eq_add_of_le h
  rw [Nat.add_sub_cancel_left, pow_add]
  push_cast
  field_simp

theorem toRat_fixed (h : a.exp = Int32.ofNat fixedPrecision) :
    a.toRat = a.numeric / 10 ^ fixedPrecision := by
  have hexp : a.exp.toInt = (fixedPrecision : Nat) := by
    rw [h]
    decide
  rw [toRat, hexp, zpow_neg, zpow_natCast, div_eq_mul_inv]

/-- **Decimal amounts keep their value.**

* An amount whose exponent is not negative is read back from its text with the same mantissa and exponent; a
  negative exponent is multiplied out. So any text of less than two gigabytes that is read as an amount can
  be replaced by the text of that amount.
* The chain's fixed point has room for the texts that are read with at most eighteen places, and keeps their
  value.
* It is built from the texts that are read with no places as from integers, and its own text is read back as
  that integer with eighteen places. -/
theorem decimal_values :
    (∀ a : Amount, 0 ≤ a.exp → parseDecimal a.decimalText = .ok (a.numeric, a.exp)) ∧
    (∀ a : Amount, a.exp < 0 →
      parseDecimal a.decimalText = .ok (a.numeric * 10 ^ a.exp.toInt.natAbs, 0)) ∧
    ∀ text : String, text.utf8ByteSize < 2 ^ 31 → ∀ currency,
      (∀ a, parse text currency = .ok a → ∃ b, parse a.decimalText currency = .ok b ∧
        b.numeric = a.numeric ∧ b.exp = a.exp) ∧
      ((∃ a, parseFixed text currency = .ok a) ↔ ∃ d : Decimal, d.WrittenIn text ∧
        parseDecimal text = .ok (d.numeric, Int32.ofNat d.places) ∧ d.places ≤ 18) ∧
      (∀ (a : Amount) (d : Decimal), parseFixed text currency = .ok a → d.WrittenIn text →
        a.exp = 18 ∧ a.toRat = d.toRat) ∧
      ((∃ a, ofScaled text 18 currency = .ok a) ↔ ∃ d : Decimal, d.WrittenIn text ∧
        parseDecimal text = .ok (d.numeric, Int32.ofNat d.places) ∧ d.places = 0) ∧
      ∀ (a : Amount) (d : Decimal), ofScaled text 18 currency = .ok a → d.WrittenIn text →
        parseDecimal a.text = .ok (d.numeric, 18) := by
  refine ⟨fun a => parseDecimal_decimalText, fun a => parseDecimal_decimalText_neg,
    fun text hsize currency => ⟨fun a h => ?_, ⟨?_, ?_⟩, fun a d h hd => ?_, ⟨?_, ?_⟩,
      fun a d h hd => ?_⟩⟩
  · have hread := parse_ok h
    obtain ⟨d, hd, hr⟩ := exists_written hread
    have hexp : 0 ≤ a.exp := by
      rw [(Prod.mk.inj hr).2, Int32.le_iff_toInt_le, hd.toInt_places hsize]
      exact Int.natCast_nonneg _
    exact ⟨_, parse_of_read (parseDecimal_decimalText hexp), rfl, rfl⟩
  · rintro ⟨a, h⟩
    obtain ⟨d, hd⟩ := exists_written_of_bind h
    refine ⟨d, hd, parseDecimal_written hd, ?_⟩
    by_contra hmore
    have hless : ¬d.places ≤ fixedPrecision := hmore
    rw [parseFixed_written hd hsize, if_neg hless] at h
    cases h
  · rintro ⟨d, hd, -, hfits⟩
    exact ⟨_, (parseFixed_written hd hsize).trans (if_pos hfits)⟩
  · rw [parseFixed_written hd hsize] at h
    split at h
    · rename_i hfits
      cases h
      refine ⟨rfl, ?_⟩
      rw [toRat_fixed rfl]
      exact value_scaled hfits d.numeric
    · cases h
  · rintro ⟨a, h⟩
    obtain ⟨d, hd⟩ := exists_written_of_bind h
    refine ⟨d, hd, parseDecimal_written hd, ?_⟩
    by_contra hsome
    rw [ofScaled_written hd hsize, if_neg hsome] at h
    cases h
  · rintro ⟨d, hd, -, hnone⟩
    exact ⟨_, (ofScaled_written hd hsize 18).trans (if_pos hnone)⟩
  · rw [ofScaled_written hd hsize] at h
    split at h
    · cases h
      have hexp : (0 : Int32) ≤ 18 := by decide
      exact parseDecimal_decimalText (a := { numeric := d.numeric, exp := 18 }) hexp
    · cases h

/-- Minus one half, without a digit in front of its comma. -/
theorem decimal_values_half :
    "-,50".utf8ByteSize < 2 ^ 31 ∧ ∃ a, parseFixed "-,50" "uluna" = .ok a ∧ a.exp = 18 ∧
      a.toRat = -1 / 2 := by
  have hsize : "-,50".utf8ByteSize < 2 ^ 31 := by decide
  let d : Decimal := ⟨true, [], some ',', ['5', '0'], by simp, by simp, by simp [isSeparator], nofun⟩
  have hd : d.WrittenIn "-,50" := by
    show _ = _
    decide
  have hread : parseDecimal "-,50" = .ok (d.numeric, Int32.ofNat d.places) := by decide
  obtain ⟨-, hfixed, hvalue, -⟩ := decimal_values.2.2 "-,50" hsize "uluna"
  obtain ⟨a, ha⟩ := hfixed.2 ⟨d, hd, hread, by decide⟩
  obtain ⟨hexp, hrat⟩ := hvalue a d ha hd
  have hhalf : d.toRat = -1 / 2 := by
    have hnumeric : d.numeric = -50 := by decide
    have hplaces : d.places = 2 := rfl
    rw [Decimal.toRat, hnumeric, hplaces]
    norm_num
  exact ⟨hsize, a, ha, hexp, hrat.trans hhalf⟩

end ChainIndex.Amount
