import ChainIndex.Amount.Coin
import ChainIndex.Proofs.DecimalValues
import Mathlib.Data.List.TakeWhile

/-!
# How a token is divided

A token such as `123ukrw` is divided behind the longest leading run of digits, separators and minus signs
that leaves a denomination (`Amount.Divides`). A denomination is only said not to start with a digit, so it
may start with a separator: what stands behind the point of a number is then a denomination as well.

* `Amount.split_of_divides`, `Amount.split_undivided`: the longest division is taken, and a number that
  cannot be divided is left whole.
* `Amount.Decimal.divides_iff`: a number can be divided in one place at most, before its separator.
* `Amount.split_bare_iff`: **a bare number has no denomination just if it has no separator, or nothing in
  front of it.**
-/

namespace ChainIndex.Amount

/-! ## Divisions of a token -/

/-- A text that can stand as a denomination: no digit first, and no blank in it. -/
structure IsDenomination (s : List Char) : Prop where
  starts : ∃ c rest, s = c :: rest ∧ c.isDigit = false
  unblank : ∀ c ∈ s, Text.isBlank c = false

/-- A token is an amount part, blanks, and a denomination. -/
structure Divides (token amount denom : List Char) : Prop where
  nonempty : amount ≠ []
  marks : ∀ c ∈ amount, isNumericMark c = true
  parts : ∃ blanks, token = amount ++ (blanks ++ denom) ∧ ∀ c ∈ blanks, Text.isBlank c = true
  denomination : IsDenomination denom

section Divisions

variable {rest token amount denom : List Char}

theorem denomination?_eq_some_iff : denomination? rest = some denom ↔
    IsDenomination denom ∧ ∃ blanks, rest = blanks ++ denom ∧ ∀ c ∈ blanks, Text.isBlank c = true := by
  constructor
  · intro h
    have hparts : rest.takeWhile Text.isBlank ++ rest.dropWhile Text.isBlank = rest :=
      List.takeWhile_append_dropWhile
    have hfirst := List.head?_dropWhile_not Text.isBlank rest
    unfold denomination? at h
    split at h
    · rename_i c s hrest
      rw [hrest] at hparts hfirst
      split at h
      · rename_i hgood
        rw [Bool.and_eq_true, Bool.not_eq_true', List.all_eq_true] at hgood
        cases h
        have hs : ∀ x ∈ s, Text.isBlank x = false := by
          intro x hx
          simpa using hgood.2 x hx
        exact ⟨⟨⟨c, s, rfl, hgood.1⟩, List.forall_mem_cons.2 ⟨hfirst, hs⟩⟩, _, hparts.symm,
          fun x hx => List.mem_takeWhile_imp hx⟩
      · cases h
    · cases h
  · rintro ⟨⟨⟨c, s, rfl, hc⟩, hunblank⟩, blanks, rfl, hblanks⟩
    have hs : s.all (fun x => !Text.isBlank x) = true := by
      rw [List.all_eq_true]
      intro x hx
      simp [hunblank x (List.mem_cons_of_mem c hx)]
    unfold denomination?
    rw [List.dropWhile_append_of_pos hblanks, Text.dropWhile_isBlank hunblank]
    simp [hc, hs]

/-- The tried amount parts are the possible ones. -/
theorem divides_iff : Divides token amount denom ↔ ∃ j, 0 < j ∧
    j ≤ (token.takeWhile isNumericMark).length ∧ amount = token.take j ∧
    denomination? (token.drop j) = some denom := by
  constructor
  · rintro ⟨hne, hmarks, ⟨blanks, rfl, hblanks⟩, hdenom⟩
    refine ⟨amount.length, List.length_pos_of_ne_nil hne, ?_, List.take_left.symm, ?_⟩
    · rw [List.takeWhile_append_of_pos hmarks, List.length_append]
      omega
    · rw [List.drop_left]
      exact denomination?_eq_some_iff.2 ⟨hdenom, blanks, rfl, hblanks⟩
  · rintro ⟨j, hpos, hj, rfl, hdrop⟩
    obtain ⟨hdenom, hparts⟩ := denomination?_eq_some_iff.1 hdrop
    have hrun : token.takeWhile isNumericMark ++ token.dropWhile isNumericMark = token :=
      List.takeWhile_append_dropWhile
    have hlength : (token.takeWhile isNumericMark).length ≤ token.length :=
      (List.takeWhile_sublist isNumericMark).length_le
    have htake : token.take j = (token.takeWhile isNumericMark).take j := by
      conv_lhs => rw [← hrun]
      exact List.take_append_of_le_length hj
    refine ⟨?_, fun c hc => ?_, ?_, hdenom⟩
    · refine List.ne_nil_of_length_pos ?_
      rw [List.length_take]
      omega
    · rw [htake] at hc
      exact List.mem_takeWhile_imp (List.mem_of_mem_take hc)
    · obtain ⟨blanks, hblanks, hall⟩ := hparts
      refine ⟨blanks, ?_, hall⟩
      rw [← hblanks, List.take_append_drop]

/-- Of the amount parts of at most `k` characters the longest is taken that leaves a denomination. -/
theorem splitFrom_cases (token : List Char) (k : Nat) :
    (∃ j denom, 0 < j ∧ j ≤ k ∧ denomination? (token.drop j) = some denom ∧
      splitFrom token k = some (token.take j, denom) ∧
      ∀ i, j < i → i ≤ k → denomination? (token.drop i) = none) ∨
    (splitFrom token k = none ∧ ∀ i, 0 < i → i ≤ k → denomination? (token.drop i) = none) := by
  induction k with
  | zero => exact .inr ⟨rfl, fun i hpos hi => absurd hpos (by omega)⟩
  | succ k ih =>
    cases hdenom : denomination? (token.drop (k + 1)) with
    | some denom =>
      left
      refine ⟨k + 1, denom, Nat.succ_pos k, Nat.le_refl _, hdenom, ?_, fun i hlt hi => by omega⟩
      rw [splitFrom, hdenom]
    | none =>
      have hstep : splitFrom token (k + 1) = splitFrom token k := by
        rw [splitFrom, hdenom]
      have hlast : ∀ i, i ≤ k + 1 → ¬i ≤ k → denomination? (token.drop i) = none := by
        intro i hi hk
        have heq : i = k + 1 := by omega
        rw [heq, hdenom]
      rw [hstep]
      rcases ih with ⟨j, denom, hpos, hj, hsome, hsplit, hlonger⟩ | ⟨hsplit, hnone⟩
      · left
        refine ⟨j, denom, hpos, by omega, hsome, hsplit, fun i hlt hi => ?_⟩
        by_cases hk : i ≤ k
        · exact hlonger i hlt hk
        · exact hlast i hi hk
      · right
        refine ⟨hsplit, fun i hpos hi => ?_⟩
        by_cases hk : i ≤ k
        · exact hnone i hpos hk
        · exact hlast i hi hk

variable {s : String}

theorem Divides.ne_nil (h : Divides token amount denom) : token ≠ [] := by
  obtain ⟨blanks, rfl, -⟩ := h.parts
  exact List.append_ne_nil_of_left_ne_nil h.nonempty _

/-- **The longest division is taken.** -/
theorem split_of_divides (h : Divides (Text.trim s.toList) amount denom)
    (hlongest : ∀ amount' denom', Divides (Text.trim s.toList) amount' denom' →
      amount'.length ≤ amount.length) :
    split s = .ok (String.ofList amount, String.ofList denom) := by
  have hne := h.ne_nil
  obtain ⟨j, hpos, hj, hamount, hdenom⟩ := divides_iff.1 h
  have hfits := (List.takeWhile_sublist isNumericMark (l := Text.trim s.toList)).length_le
  have hlength : amount.length = j := by
    rw [hamount, List.length_take]
    omega
  have hsplit : splitFrom (Text.trim s.toList)
      ((Text.trim s.toList).takeWhile isNumericMark).length = some (amount, denom) := by
    rcases splitFrom_cases (Text.trim s.toList)
        ((Text.trim s.toList).takeWhile isNumericMark).length with
      ⟨j', denom', hpos', hj', hdenom', hsplit, hlonger⟩ | ⟨-, hnone⟩
    · -- neither of the two is longer than the other
      have hle : j' ≤ j := by
        have hother := hlongest _ _ (divides_iff.2 ⟨j', hpos', hj', rfl, hdenom'⟩)
        rw [List.length_take] at hother
        omega
      have hge : ¬j' < j := by
        intro hlt
        rw [hlonger j hlt hj] at hdenom
        cases hdenom
      have heq : j' = j := by omega
      subst heq
      rw [hdenom] at hdenom'
      cases hdenom'
      rw [hsplit, hamount]
    · rw [hnone j hpos hj] at hdenom
      cases hdenom
  simp only [split, List.isEmpty_iff, hne, if_false, hsplit]

/-- **A number that cannot be divided is left whole.** -/
theorem split_undivided {r : Int × Int32} (hread : parseDecimal (Text.trimmed s) = .ok r)
    (hne : Text.trim s.toList ≠ [])
    (hnone : ∀ amount denom, ¬Divides (Text.trim s.toList) amount denom) :
    split s = .ok (Text.trimmed s, "") := by
  have hsplit : splitFrom (Text.trim s.toList)
      ((Text.trim s.toList).takeWhile isNumericMark).length = none := by
    rcases splitFrom_cases (Text.trim s.toList)
        ((Text.trim s.toList).takeWhile isNumericMark).length with
      ⟨j, denom, hpos, hj, hdenom, -⟩ | ⟨hsplit, -⟩
    · exact absurd (divides_iff.2 ⟨j, hpos, hj, rfl, hdenom⟩) (hnone _ _)
    · exact hsplit
  rw [Text.trimmed] at hread ⊢
  simp only [split, List.isEmpty_iff, hne, if_false, hsplit, hread]

end Divisions

/-! ## Bare numbers -/

theorem isNumericMark_of_isDigit {c : Char} (h : c.isDigit = true) : isNumericMark c = true := by
  simp [isNumericMark, h]

theorem isNumericMark_of_isSeparator {c : Char} (h : isSeparator c = true) :
    isNumericMark c = true := by
  simp [isNumericMark, h]

theorem isDigit_of_isSeparator {c : Char} (h : isSeparator c = true) : c.isDigit = false := by
  cases hdigit : c.isDigit with
  | false => rfl
  | true =>
    rw [isSeparator_of_isDigit hdigit] at h
    cases h

namespace Decimal

variable {d : Decimal} {amount denom : List Char} {c : Char}

/-- There is no separator, or nothing before it. -/
def Undivided (d : Decimal) : Prop :=
  d.mark = none ∨ d.front = []

theorem isNumericMark_front (h : c ∈ d.front) : isNumericMark c = true := by
  rcases mem_front h with rfl | hdigit
  · decide
  · exact isNumericMark_of_isDigit hdigit

theorem isNumericMark_of_mem (h : c ∈ d.chars) : isNumericMark c = true := by
  rw [chars_eq, List.mem_append, List.mem_append, Option.mem_toList] at h
  rcases h with h | h | h
  · exact isNumericMark_front h
  · exact isNumericMark_of_isSeparator (d.separates c h)
  · exact isNumericMark_of_isDigit (d.isDigit_fraction h)

/-- Only the first character may be a sign. -/
theorem isDigit_of_mem_front (h : c ∈ d.front.tail) : c.isDigit = true := by
  rw [front] at h
  cases hsign : d.negative with
  | true =>
    rw [hsign] at h
    exact d.isDigit_whole h
  | false =>
    rw [hsign] at h
    exact d.isDigit_whole (List.mem_of_mem_tail h)

/-- There is only one separator. -/
theorem isDigit_of_mem_behind (h : c ∈ (d.mark.toList ++ d.fraction).tail) : c.isDigit = true := by
  cases hmark : d.mark with
  | none =>
    rw [hmark, d.unmarked hmark] at h
    cases h
  | some m =>
    rw [hmark] at h
    exact d.isDigit_fraction h

/-- **A number can be divided in one place at most**, before its separator. -/
theorem divides_iff : Divides d.chars amount denom ↔
    d.front ≠ [] ∧ amount = d.front ∧ ∃ c, d.mark = some c ∧ denom = c :: d.fraction := by
  constructor
  · rintro ⟨hne, -, ⟨blanks, htext, hblanks⟩, hdenom⟩
    -- there is no blank in a number, so the denomination follows at once
    have hnil : blanks = [] := by
      refine List.eq_nil_iff_forall_not_mem.2 fun x hx => ?_
      have hmem : x ∈ d.chars := by
        rw [htext]
        exact List.mem_append_right _ (List.mem_append_left _ hx)
      have hblank := hblanks x hx
      rw [isBlank_of_mem hmem] at hblank
      cases hblank
    obtain ⟨x, rest, rfl, hx⟩ := hdenom.starts
    rw [hnil, List.nil_append, chars_eq] at htext
    -- and its first character, which is no digit, can only be the separator
    have hsame : amount = d.front := by
      rcases List.append_eq_append_iff.1 htext with ⟨more, hamount, hmore⟩ | ⟨more, hfront, hmore⟩
      · cases more with
        | nil => rw [hamount, List.append_nil]
        | cons y more =>
          have hmem : x ∈ (d.mark.toList ++ d.fraction).tail := by
            rw [hmore]
            exact List.mem_append_right _ List.mem_cons_self
          rw [isDigit_of_mem_behind hmem] at hx
          cases hx
      · cases more with
        | nil => rw [hfront, List.append_nil]
        | cons y more =>
          obtain ⟨rfl, -⟩ := List.cons.inj hmore
          have hmem : x ∈ d.front.tail := by
            rw [hfront, List.tail_append_of_ne_nil hne]
            exact List.mem_append_right _ List.mem_cons_self
          rw [isDigit_of_mem_front hmem] at hx
          cases hx
    subst hsame
    have hbehind : d.mark.toList ++ d.fraction = x :: rest := List.append_cancel_left htext
    refine ⟨hne, rfl, ?_⟩
    cases hmark : d.mark with
    | none =>
      rw [hmark, d.unmarked hmark] at hbehind
      cases hbehind
    | some c =>
      rw [hmark] at hbehind
      exact ⟨c, rfl, hbehind.symm⟩
  · rintro ⟨hne, rfl, c, hmark, rfl⟩
    have hchars : d.chars = d.front ++ ([] ++ c :: d.fraction) := by
      rw [chars_eq, hmark]
      rfl
    have hc : isSeparator c = true := d.separates c hmark
    refine ⟨hne, fun _ => isNumericMark_front, ⟨[], hchars, List.forall_mem_nil _⟩,
      ⟨c, d.fraction, rfl, isDigit_of_isSeparator hc⟩, fun x hx => isBlank_of_mem (d := d) ?_⟩
    rw [hchars]
    exact List.mem_append_right _ hx

/-- What stands before the separator, if there is a digit in it, is a number too. -/
def integral (d : Decimal) (h : d.whole ≠ []) : Decimal where
  negative := d.negative
  whole := d.whole
  mark := none
  fraction := []
  digits c hc := d.isDigit_whole (by rwa [List.append_nil] at hc)
  nonempty := by rwa [List.append_nil]
  separates := nofun
  unmarked _ := rfl

theorem chars_integral (h : d.whole ≠ []) : (d.integral h).chars = d.front := by
  simp [chars, integral, front]

variable {s : String}

/-- A number by itself is not changed by trimming. -/
theorem trimmed_ofList (d : Decimal) : Text.trimmed (String.ofList d.chars) = String.ofList d.chars := by
  rw [Text.trimmed, String.toList_ofList, Text.trim_eq_self fun _ => isBlank_of_mem]

theorem WrittenIn.trimmed_eq (h : d.WrittenIn s) : Text.trimmed s = String.ofList d.chars :=
  congrArg String.ofList h

theorem WrittenIn.split_undivided (h : d.WrittenIn s) (hundivided : d.Undivided) :
    split s = .ok (Text.trimmed s, "") := by
  refine Amount.split_undivided (r := (d.numeric, Int32.ofNat d.places)) ?_ h.ne_nil ?_
  · rw [h.trimmed_eq]
    exact parseDecimal_written d.written_ofList
  · intro amount denom hdivides
    rw [h] at hdivides
    obtain ⟨hne, -, c, hmark, -⟩ := divides_iff.1 hdivides
    rcases hundivided with hnone | hnil
    · rw [hmark] at hnone
      cases hnone
    · exact hne hnil

theorem WrittenIn.split_divided (h : d.WrittenIn s) (hmark : d.mark = some c) (hne : d.front ≠ []) :
    split s = .ok (String.ofList d.front, String.ofList (c :: d.fraction)) := by
  refine split_of_divides ?_ ?_
  · rw [h]
    exact divides_iff.2 ⟨hne, rfl, c, hmark, rfl⟩
  · intro amount denom hdivides
    rw [h] at hdivides
    rw [(divides_iff.1 hdivides).2.1]

end Decimal

theorem parseCoin_of_split {s amount denom : String} (h : split s = .ok (amount, denom)) :
    parseCoin s = parse amount denom := by
  rw [parseCoin, h]
  rfl

/-- **Which bare numbers have no denomination.** A text that is read as a number is left whole just if the
number has no separator, or nothing in front of it, and then as a coin it is that number without a
denomination. Any other number is divided before its separator, which starts the denomination: the coin
has the digits in front alone, with no places, and if there are none but a sign, then it is no coin. -/
theorem split_bare_iff {t : String} {r : Int × Int32} (h : parseDecimal t = .ok r) :
    ∃ d : Decimal, d.WrittenIn t ∧ r = (d.numeric, Int32.ofNat d.places) ∧
      (split t = .ok (Text.trimmed t, "") ↔ d.Undivided) ∧
      (d.Undivided → parseCoin t = parse t "") ∧
      ∀ c, d.mark = some c → d.front ≠ [] →
        split t = .ok (String.ofList d.front, String.ofList (c :: d.fraction)) ∧
        (d.whole = [] → parseCoin t = .error (.notNumeric "-")) ∧
        ∀ hwhole : d.whole ≠ [], parseCoin t = .ok
          { text := String.ofList d.front, numeric := (d.integral hwhole).numeric, exp := 0,
            currency := String.ofList (c :: d.fraction) } := by
  obtain ⟨d, hd, hr⟩ := exists_written h
  refine ⟨d, hd, hr, ⟨fun hsplit => ?_, hd.split_undivided⟩, fun hundivided => ?_,
    fun c hmark hne => ?_⟩
  · -- a number that is divided has a denomination
    by_contra hdivided
    rw [Decimal.Undivided, not_or] at hdivided
    obtain ⟨c, hmark⟩ := Option.ne_none_iff_exists'.1 hdivided.1
    rw [hd.split_divided hmark hdivided.2] at hsplit
    have hempty : String.ofList (c :: d.fraction) = "" := (Prod.mk.inj (Except.ok.inj hsplit)).2
    have hlist := congrArg String.toList hempty
    rw [String.toList_ofList] at hlist
    cases hlist
  · rw [parseCoin_of_split (hd.split_undivided hundivided), hd.trimmed_eq,
      parse_of_read (parseDecimal_written d.written_ofList), parse_of_read (parseDecimal_written hd),
      d.trimmed_ofList, hd.trimmed_eq]
  · have hsplit := hd.split_divided hmark hne
    refine ⟨hsplit, fun hnone => ?_, fun hwhole => ?_⟩
    · -- all that is in front is a sign
      have hsign : d.front = ['-'] := by
        rw [Decimal.front, hnone] at hne ⊢
        cases hnegative : d.negative with
        | true => rfl
        | false =>
          rw [hnegative] at hne
          exact absurd rfl hne
      rw [parseCoin_of_split hsplit, hsign]
      rfl
    · have hread := parseDecimal_written (d.integral hwhole).written_ofList
      have htrimmed := (d.integral hwhole).trimmed_ofList
      rw [Decimal.chars_integral] at hread htrimmed
      rw [parseCoin_of_split hsplit, parse_of_read hread, htrimmed]
      rfl

/-- Nothing stands in front of the point, so it cannot start a denomination. -/
theorem split_bare_iff_half : parseDecimal " .5 " = .ok (5, 1) ∧ split " .5 " = .ok (".5", "") ∧
    parseCoin " .5 " = parse " .5 " "" := by
  have hread : parseDecimal " .5 " = .ok (5, 1) := by decide
  have hsplit : split " .5 " = .ok (".5", "") := by decide
  obtain ⟨d, -, -, hbare, hcoin, -⟩ := split_bare_iff hread
  exact ⟨hread, hsplit, hcoin (hbare.1 hsplit)⟩

/-- One and a half is taken for one of the denomination `.5`. -/
theorem fraction_as_denomination : parseDecimal "1.5" = .ok (15, 1) ∧
    split "1.5" = .ok ("1", ".5") ∧ split "1.5" ≠ .ok (Text.trimmed "1.5", "") ∧
    parseCoin "1.5" = .ok { text := "1", numeric := 1, exp := 0, currency := ".5" } := by
  decide

end ChainIndex.Amount
