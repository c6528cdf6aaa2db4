import ChainIndex.Json.Parser
import ChainIndex.Proofs.Decimals
import ChainIndex.Proofs.ShortestDecimals

/-!
# Numbers in JSON

A number token has a whole part and perhaps a fraction and an exponent (`Numeral.Proper`). All its digits,
taken together, and the place of the last one are the number that it writes (`Numeral.size`), so it does
not matter where the point stands: each of the four layouts of a decimal writes the same number
(`size_laidOut`).

* `floatText_denotes`: **the text of a double is a token that rounds to it.**
* `numeral?_spelling`: **a token is read as its parts**, up to a comma, a bracket or the end.
* `ofNumeral_ofInt`: an integer that fits a machine word is kept.
-/

namespace ChainIndex.Json

/-! ## Numerals -/

/-- A point and the digits after it. -/
def fractionText : Option (List Char) → List Char
  | none => []
  | some digits => '.' :: digits

/-- An exponent with its sign. -/
def exponentText : Option (Bool × List Char) → List Char
  | none => []
  | some (down, digits) => 'e' :: (if down then '-' else '+') :: digits

namespace Numeral

variable (t : Numeral)

/-- The characters of a number token. -/
def spelling : List Char :=
  (if t.negative then ['-'] else []) ++
    (t.whole ++ (fractionText t.fraction ++ exponentText t.exponent))

/-- The parts have at least one digit each, and no zero stands in front of the whole part. -/
structure Proper : Prop where
  whole : Text.isNumeral t.whole = true
  leading : t.whole.head? = some '0' → t.whole.length = 1
  fraction : ∀ digits, t.fraction = some digits → Text.isNumeral digits = true
  exponent : ∀ down digits, t.exponent = some (down, digits) → Text.isNumeral digits = true

/-- The power of ten behind the `e`. -/
def power : ℤ :=
  match t.exponent with
  | none => 0
  | some (true, digits) => -Text.value digits
  | some (false, digits) => Text.value digits

/-- The number that a token writes, without its sign. -/
def size : ℚ :=
  Text.value (t.whole ++ t.fraction.getD []) * 10 ^ (t.power - (t.fraction.getD []).length)

/-- The token writes a number that rounds to a double; a point or an exponent sets it apart from an
integer. -/
structure Denotes (bits : UInt64) : Prop where
  sign : t.negative = Double.isNegative bits
  nearest : Double.Nearest (Double.magnitude bits) t.size
  real : t.fraction.isSome ∨ t.exponent.isSome

end Numeral

/-! ## The layout of a decimal -/

section Layout

variable (ds : List Char) (e : ℤ)

/-- The parts of a decimal as it is laid out. -/
def laidOut (negative : Bool) : Numeral :=
  let point := ds.length + e
  if 0 ≤ e ∧ point ≤ 16 then
    ⟨negative, ds ++ List.replicate e.natAbs '0', some ['0'], none⟩
  else if 0 < point ∧ point ≤ 16 then
    ⟨negative, ds.take point.natAbs, some (ds.drop point.natAbs), none⟩
  else if -5 < point ∧ point ≤ 0 then
    ⟨negative, ['0'], some (List.replicate point.natAbs '0' ++ ds), none⟩
  else
    ⟨negative, ds.take 1, if (ds.drop 1).isEmpty then none else some (ds.drop 1),
      some (!decide (0 < point), Nat.toDigits 10 (point - 1).natAbs)⟩

theorem spelling_laidOut (negative : Bool) : (laidOut ds e negative).spelling =
    (if negative then ['-'] else []) ++ layout ds e := by
  have hdigits (n : ℕ) : (toString n).toList = Nat.toDigits 10 n := Nat.toList_repr
  have htail (tail : List Char) : fractionText (if tail.isEmpty then none else some tail) =
      if tail.isEmpty then [] else '.' :: tail := apply_ite fractionText _ none (some tail)
  unfold laidOut layout
  dsimp only
  by_cases hwhole : 0 ≤ e ∧ ds.length + e ≤ 16
  · simp [hwhole, Numeral.spelling, fractionText, exponentText]
  rw [if_neg hwhole, if_neg hwhole]
  by_cases hpoint : 0 < ds.length + e ∧ ds.length + e ≤ 16
  · simp [hpoint, Numeral.spelling, fractionText, exponentText]
  rw [if_neg hpoint, if_neg hpoint]
  by_cases hsmall : -5 < ds.length + e ∧ ds.length + e ≤ 0
  · simp [hsmall, Numeral.spelling, fractionText, exponentText]
  have hsign : (if !decide (0 < ds.length + e) then '-' else '+') =
      if 0 < ds.length + e then '+' else '-' := by
    by_cases h : 0 < ds.length + e <;> simp [h]
  rw [if_neg hsmall, if_neg hsmall, Numeral.spelling, htail, hdigits, exponentText, hsign,
    List.append_assoc (ds.take 1)]

variable {ds e}

theorem isNumeral_take {n : ℕ} (hds : Text.isNumeral ds = true) (h : 0 < n) :
    Text.isNumeral (ds.take n) = true := by
  obtain ⟨hne, hdigit⟩ := Text.isNumeral_iff.1 hds
  refine Text.isNumeral_iff.2 ⟨?_, fun c hc => hdigit c (List.mem_of_mem_take hc)⟩
  simpa [hne] using h.ne'

theorem isNumeral_drop {n : ℕ} (hds : Text.isNumeral ds = true) (h : n < ds.length) :
    Text.isNumeral (ds.drop n) = true := by
  obtain ⟨-, hdigit⟩ := Text.isNumeral_iff.1 hds
  refine Text.isNumeral_iff.2 ⟨?_, fun c hc => hdigit c (List.mem_of_mem_drop hc)⟩
  simpa using h

theorem head?_take {n : ℕ} (hhead : ds.head? ≠ some '0') : (ds.take n).head? ≠ some '0' := by
  rw [List.head?_take]
  split_ifs
  · exact Option.some_ne_none _ ∘ Eq.symm
  · exact hhead

theorem proper_laidOut (hds : Text.isNumeral ds = true) (hhead : ds.head? ≠ some '0') (negative : Bool) :
    (laidOut ds e negative).Proper := by
  obtain ⟨hne, hdigit⟩ := Text.isNumeral_iff.1 hds
  have hlength := List.length_pos_iff.2 hne
  unfold laidOut
  dsimp only
  by_cases hwhole : 0 ≤ e ∧ ds.length + e ≤ 16
  · rw [if_pos hwhole]
    refine ⟨Text.isNumeral_iff.2 ⟨by simp [hne], fun c hc => ?_⟩, fun hzero => ?_, ?_, nofun⟩
    · rcases List.mem_append.1 hc with hc | hc
      · exact hdigit c hc
      · exact Text.isDigit_zeros hc
    · rw [List.head?_append_of_ne_nil _ hne] at hzero
      exact absurd hzero hhead
    · rintro _ ⟨⟩
      rfl
  rw [if_neg hwhole]
  by_cases hpoint : 0 < ds.length + e ∧ ds.length + e ≤ 16
  · rw [if_pos hpoint]
    refine ⟨isNumeral_take hds (by omega), fun hzero => absurd hzero (head?_take hhead), ?_, nofun⟩
    rintro _ ⟨⟩
    exact isNumeral_drop hds (by omega)
  rw [if_neg hpoint]
  by_cases hsmall : -5 < ds.length + e ∧ ds.length + e ≤ 0
  · rw [if_pos hsmall]
    refine ⟨rfl, fun _ => rfl, ?_, nofun⟩
    rintro _ ⟨⟩
    refine Text.isNumeral_iff.2 ⟨by simp [hne], fun c hc => ?_⟩
    rcases List.mem_append.1 hc with hc | hc
    · exact Text.isDigit_zeros hc
    · exact hdigit c hc
  rw [if_neg hsmall]
  refine ⟨isNumeral_take hds Nat.one_pos, fun hzero => absurd hzero (head?_take hhead), ?_, ?_⟩
  · intro digits hdigits
    split_ifs at hdigits with hempty
    obtain rfl := Option.some.inj hdigits
    rw [List.isEmpty_iff, List.drop_eq_nil_iff, Nat.not_le] at hempty
    exact isNumeral_drop hds hempty
  · rintro _ _ ⟨⟩
    exact Text.isNumeral_toDigits _

/-- A number is known by all its digits and the place of the last one. -/
theorem size_eq {t : Numeral} {n : ℕ} {place : ℤ} (hdigits : Text.value (t.whole ++ t.fraction.getD []) = n)
    (hplace : t.power - (t.fraction.getD []).length = place) : t.size = n * 10 ^ place := by
  rw [Numeral.size, hdigits, hplace]

/-- An exponent that counts from behind the first digit. -/
theorem power_eq {t : Numeral} {point : ℤ}
    (h : t.exponent = some (!decide (0 < point), Nat.toDigits 10 (point - 1).natAbs)) :
    t.power = point - 1 := by
  by_cases hpoint : 0 < point
  · rw [decide_eq_true hpoint] at h
    rw [Numeral.power, h]
    simp only [Bool.not_true, Text.value_toDigits]
    omega
  · rw [decide_eq_false hpoint] at h
    rw [Numeral.power, h]
    simp only [Bool.not_false, Text.value_toDigits]
    omega

theorem value_append_zeros (k : ℕ) :
    Text.value (ds ++ List.replicate k '0') = Text.value ds * 10 ^ k := by
  rw [Text.value_append, Text.value_zeros, List.length_replicate]
  rfl

theorem value_zeros_append (k : ℕ) (digits : List Char) :
    Text.value (List.replicate k '0' ++ digits) = Text.value digits := by
  rw [Text.value_append, Text.value_zeros, Nat.zero_mul, Nat.zero_add]

theorem size_laidOut (hds : ds ≠ []) (negative : Bool) :
    (laidOut ds e negative).size = Text.value ds * 10 ^ e := by
  have hlength := List.length_pos_iff.2 hds
  unfold laidOut
  dsimp only
  -- zeros behind the digits stand for the exponent, and the last one is the fraction
  by_cases hwhole : 0 ≤ e ∧ ds.length + e ≤ 16
  · have hzeros : ds ++ List.replicate e.natAbs '0' ++ ['0'] =
        ds ++ List.replicate (e.natAbs + 1) '0' := by
      rw [List.replicate_succ', List.append_assoc]
    rw [if_pos hwhole]
    rw [size_eq ((congrArg Text.value hzeros).trans (value_append_zeros _)) rfl]
    push_cast
    rw [mul_assoc, ← zpow_natCast, ← zpow_add₀ (by norm_num)]
    congr 2
    simp only [Numeral.power, Option.getD_some, List.length_singleton]
    omega
  rw [if_neg hwhole]
  by_cases hpoint : 0 < ds.length + e ∧ ds.length + e ≤ 16
  · have hdigits := congrArg Text.value (List.take_append_drop (ds.length + e).natAbs ds)
    rw [if_pos hpoint]
    refine size_eq hdigits ?_
    simp only [Numeral.power, Option.getD_some, List.length_drop]
    omega
  rw [if_neg hpoint]
  by_cases hsmall : -5 < ds.length + e ∧ ds.length + e ≤ 0
  · have hzeros : Text.value (['0'] ++ (List.replicate (ds.length + e).natAbs '0' ++ ds)) = Text.value ds :=
      (value_zeros_append 1 _).trans (value_zeros_append _ ds)
    rw [if_pos hsmall]
    refine size_eq hzeros ?_
    simp only [Numeral.power, Option.getD_some, List.length_append, List.length_replicate]
    omega
  -- a point behind the first digit, left out when there is no other digit
  have htail : (if (ds.drop 1).isEmpty then none else some (ds.drop 1)).getD [] = ds.drop 1 := by
    split_ifs with hempty
    · exact (List.isEmpty_iff.1 hempty).symm
    · rfl
  have hdigits := congrArg Text.value (List.take_append_drop 1 ds)
  rw [← htail] at hdigits
  rw [if_neg hsmall]
  refine size_eq hdigits ?_
  rw [power_eq rfl, htail, List.length_drop]
  omega

theorem real_laidOut (negative : Bool) : (laidOut ds e negative).fraction.isSome ∨
    (laidOut ds e negative).exponent.isSome := by
  unfold laidOut
  dsimp only
  split_ifs <;> simp

end Layout

/-! ## Doubles -/

theorem nearest_zero : Double.Nearest 0 0 := by
  have hzero : Double.toRat 0 = 0 := by
    rw [Double.toRat, show Double.significand 0 = 0 from rfl, Nat.cast_zero, zero_mul]
  have hnext : 0 < Double.toRat (0 + 1) := by
    rw [Double.toRat_succ, hzero]
    linarith [Double.quarter_pos 0]
  refine ⟨?_, ?_, fun hodd => absurd hodd (by decide)⟩
  · rw [Nat.zero_sub, hzero]
    norm_num
  · rw [hzero]
    linarith

/-- **The text of a double is a number token that rounds to it.** -/
theorem floatText_denotes (bits : UInt64) :
    ∃ t : Numeral, t.spelling = (floatText bits).toList ∧ t.Proper ∧ t.Denotes bits := by
  unfold floatText
  dsimp only
  rw [String.toList_ofList]
  by_cases hzero : Double.magnitude bits = 0
  · refine ⟨⟨Double.isNegative bits, ['0'], some ['0'], none⟩, ?_, ⟨rfl, fun _ => rfl, ?_, nofun⟩,
      ⟨rfl, ?_, .inl rfl⟩⟩
    · rw [if_pos hzero]
      rfl
    · rintro _ ⟨⟩
      rfl
    · rw [hzero, size_eq (n := 0) rfl rfl, Nat.cast_zero, zero_mul]
      exact nearest_zero
  · have hpos := Nat.pos_of_ne_zero hzero
    have hdigits : (toString (Text.Shortest.ofBits (Double.magnitude bits)).1).toList =
        Nat.toDigits 10 (Text.Shortest.ofBits (Double.magnitude bits)).1 := Nat.toList_repr
    rw [if_neg hzero, ← spelling_laidOut, hdigits]
    refine ⟨_, rfl, proper_laidOut (Text.isNumeral_toDigits _)
      (Text.head?_toDigits (Text.Shortest.ofBits_pos hpos)) _, ⟨?_, ?_, real_laidOut _⟩⟩
    · unfold laidOut
      dsimp only
      split_ifs <;> rfl
    · rw [size_laidOut Nat.toDigits_ne_nil, Text.value_toDigits]
      exact Text.Shortest.nearest_ofBits hpos

/-! ## Reading a number token -/

/-- What may follow a value: the end of the text, a comma or a closing bracket. -/
def Ends (rest : List Char) : Prop :=
  ∀ c ∈ rest.head?, c ∈ [',', ']', '\x7d']

theorem Ends.ne {rest : List Char} (h : Ends rest) {c : Char} (hc : c ∈ rest.head?) :
    c.isDigit = false ∧ c ≠ '.' ∧ c ≠ 'e' ∧ c ≠ 'E' := by
  have hmark := h c hc
  simp only [List.mem_cons, List.not_mem_nil, or_false] at hmark
  rcases hmark with rfl | rfl | rfl <;> decide

theorem digits_append {ds rest : List Char} (hds : Text.isNumeral ds = true)
    (hrest : ∀ c ∈ rest.head?, c.isDigit = false) : digits (ds ++ rest) = (ds, rest) := by
  obtain ⟨-, hdigit⟩ := Text.isNumeral_iff.1 hds
  rw [digits, List.span_eq_takeWhile_dropWhile, List.takeWhile_append_of_pos hdigit,
    List.dropWhile_append_of_pos hdigit]
  cases rest with
  | nil => rw [List.takeWhile_nil, List.dropWhile_nil, List.append_nil]
  | cons c rest =>
    have hc : ¬c.isDigit = true := Bool.eq_false_iff.1 (hrest c rfl)
    rw [List.takeWhile_cons_of_neg hc, List.dropWhile_cons_of_neg hc, List.append_nil]

section Tokens

variable {t : Numeral} {rest : List Char}

/-- A token begins with its sign or a digit. -/
theorem Numeral.Proper.cons (h : t.Proper) :
    ∃ c cs, t.spelling = c :: cs ∧ (c = '-' ∨ c.isDigit = true) := by
  obtain ⟨hne, hdigit⟩ := Text.isNumeral_iff.1 h.whole
  obtain ⟨c, cs, hcs⟩ := List.exists_cons_of_ne_nil hne
  unfold spelling
  cases t.negative with
  | true => exact ⟨_, _, rfl, .inl rfl⟩
  | false => exact ⟨c, _, by rw [hcs]; rfl, .inr (hdigit c (hcs ▸ List.mem_cons_self))⟩

theorem exponent?_text (h : t.Proper) (hrest : Ends rest) :
    exponent? (exponentText t.exponent ++ rest) = some (t.exponent, rest) := by
  match he : t.exponent with
  | none =>
    cases rest with
    | nil => rfl
    | cons c rest =>
      obtain ⟨-, -, he, hE⟩ := hrest.ne (c := c) rfl
      exact if_neg (not_or.2 ⟨he, hE⟩)
  | some (down, ds) =>
    have hds := h.exponent down ds he
    obtain ⟨hne, -⟩ := Text.isNumeral_iff.1 hds
    have hdigits := digits_append hds fun c hc => (hrest.ne hc).1
    cases down <;> simp [exponent?, exponentText, hdigits, hne]

/-- What may follow the digits of a whole part or a fraction. -/
theorem head_exponentText (hrest : Ends rest) {e : Option (Bool × List Char)} {c : Char}
    (hc : c ∈ (exponentText e ++ rest).head?) : c.isDigit = false ∧ c ≠ '.' := by
  match e with
  | none => exact ⟨(hrest.ne hc).1, (hrest.ne hc).2.1⟩
  | some _ =>
    cases hc
    exact ⟨rfl, by decide⟩

theorem fraction?_text (h : t.Proper) (hrest : Ends rest) :
    fraction? (fractionText t.fraction ++ (exponentText t.exponent ++ rest)) =
      some (t.fraction, exponentText t.exponent ++ rest) := by
  match hf : t.fraction with
  | none =>
    rw [fractionText, List.nil_append, fraction?]
    intro rest' heq
    have hpoint : '.' ∈ (exponentText t.exponent ++ rest).head? := by
      rw [heq]
      rfl
    exact (head_exponentText hrest hpoint).2 rfl
  | some ds =>
    have hds := h.fraction ds hf
    obtain ⟨hne, -⟩ := Text.isNumeral_iff.1 hds
    have hdigits := digits_append hds fun c hc => (head_exponentText (e := t.exponent) hrest hc).1
    simp [fraction?, fractionText, hdigits, hne]

/-- The sign is taken off first, and a digit is none. -/
theorem numeral?_signed {negative : Bool} {s : List Char} (hs : '-' ∉ s.head?) :
    numeral? ((if negative then ['-'] else []) ++ s) = (do
      let (whole, s) := digits s
      if whole.isEmpty ∨ (whole.head? = some '0' ∧ 1 < whole.length) then none
      else
        let (fraction, s) ← fraction? s
        let (exponent, s) ← exponent? s
        return (⟨negative, whole, fraction, exponent⟩, s)) := by
  cases negative with
  | true => rfl
  | false =>
    refine numeral?.eq_2 s fun rest heq => hs ?_
    rw [heq]
    rfl

/-- **A number token is read as its parts.** -/
theorem numeral?_spelling (h : t.Proper) (hrest : Ends rest) :
    numeral? (t.spelling ++ rest) = some (t, rest) := by
  obtain ⟨hne, hdigit⟩ := Text.isNumeral_iff.1 h.whole
  have hwhole : digits (t.whole ++ (fractionText t.fraction ++ (exponentText t.exponent ++ rest))) =
      (t.whole, fractionText t.fraction ++ (exponentText t.exponent ++ rest)) := by
    refine digits_append h.whole fun c hc => ?_
    match hf : t.fraction with
    | none =>
      rw [hf] at hc
      exact (head_exponentText hrest hc).1
    | some _ =>
      rw [hf] at hc
      cases hc
      rfl
  have hlead : ¬(t.whole.isEmpty = true ∨ (t.whole.head? = some '0' ∧ 1 < t.whole.length)) := by
    rintro (hempty | ⟨hzero, hlong⟩)
    · exact hne (List.isEmpty_iff.1 hempty)
    · have hone := h.leading hzero
      omega
  have hsign : '-' ∉ (t.whole ++ (fractionText t.fraction ++ (exponentText t.exponent ++ rest))).head? := by
    rw [List.head?_append_of_ne_nil _ hne]
    intro hc
    cases hdigit _ (List.mem_of_mem_head? hc)
  rw [Numeral.spelling, List.append_assoc, List.append_assoc, List.append_assoc, numeral?_signed hsign,
    hwhole]
  simp only [if_neg hlead, fraction?_text h hrest, Option.bind_eq_bind, Option.bind_some,
    exponent?_text h hrest]
  rfl

end Tokens

/-! ## Integers -/

/-- The parts of an integer. -/
def Numeral.ofInt (n : ℤ) : Numeral :=
  ⟨decide (n < 0), Nat.toDigits 10 n.natAbs, none, none⟩

theorem spelling_ofInt (n : ℤ) : (Numeral.ofInt n).spelling = (toString n).toList := by
  cases n with
  | ofNat k =>
    have hsign : decide (Int.ofNat k < 0) = false := decide_eq_false (by simp)
    have htext : (toString (Int.ofNat k)).toList = Nat.toDigits 10 k := Nat.toList_repr
    rw [Numeral.ofInt, hsign, htext]
    simp [Numeral.spelling, fractionText, exponentText]
  | negSucc k =>
    have hsign : decide (Int.negSucc k < 0) = true := decide_eq_true (Int.negSucc_lt_zero k)
    have htext : (toString (Int.negSucc k)).toList = '-' :: Nat.toDigits 10 (k + 1) := by
      show ("-" ++ Nat.repr (k + 1)).toList = _
      rw [String.toList_append, Nat.toList_repr]
      rfl
    rw [Numeral.ofInt, hsign, htext]
    simp [Numeral.spelling, fractionText, exponentText]

theorem proper_ofInt (n : ℤ) : (Numeral.ofInt n).Proper := by
  refine ⟨Text.isNumeral_toDigits _, fun hzero => ?_, nofun, nofun⟩
  rcases Nat.eq_zero_or_pos n.natAbs with h | h
  · simp [Numeral.ofInt, h]
  · exact absurd hzero (Text.head?_toDigits h)

/-- **An integer that fits a machine word is kept.** -/
theorem ofNumeral_ofInt {n : ℤ} (h : -0x8000000000000000 ≤ n ∧ n < 0x10000000000000000) :
    ofNumeral (Numeral.ofInt n) = .integer n := by
  have hvalue : Text.value (Nat.toDigits 10 n.natAbs) = n.natAbs := Text.value_toDigits _
  have hsize : UInt64.size = 0x10000000000000000 := rfl
  unfold ofNumeral Numeral.ofInt
  simp only [hvalue, Option.isNone_none, Bool.and_self, Bool.true_and]
  by_cases hsign : n < 0
  · rw [if_neg (by simp [hsign]), if_pos (by simp [hsign]; omega)]
    congr 1
    omega
  · rw [if_pos (by simp [hsign]; omega)]
    congr 1
    omega

end ChainIndex.Json
