import ChainIndex.Amount.Basic
import ChainIndex.Proofs.Decimals
import Mathlib.Data.String.Basic

/-!
# The grammar of plain decimals

A plain decimal is written with an optional minus sign, digits, and optionally a separator with more
digits (`Amount.Decimal`). The reader cuts the text at its separators first and looks at the sign and the
digits afterwards, so a text is judged by three questions in turn: is there anything but blanks, is there
at most one separator, and are the parts a sign and digits.

* `Text.fields_append_cons`, `Text.length_fields`: how a text is cut.
* `Amount.parseDecimal_written`: a decimal is read as the number that it writes.
* `Amount.exists_written`: what is read is a decimal.
* `Amount.parseDecimal_grammar`: **which texts are accepted, with which value, and what the others are
  refused for.**
-/

namespace ChainIndex

/-! ## Cutting a text at its separators -/

namespace Text

section Fields

variable {sep : Char → Bool} {a b s : List Char} {c : Char}

theorem fields_eq_singleton (h : ∀ c ∈ s, sep c = false) : fields sep s = [s] := by
  induction s with
  | nil => rfl
  | cons c s ih =>
    have hc : ¬sep c = true := by simp [h c List.mem_cons_self]
    have hrest : ∀ x ∈ s, sep x = false := fun x hx => h x (List.mem_cons_of_mem c hx)
    rw [fields, if_neg hc, ih hrest]

/-- A part without separators comes off at the front. -/
theorem fields_append_cons (h : ∀ x ∈ a, sep x = false) (hc : sep c = true) :
    fields sep (a ++ c :: b) = a :: fields sep b := by
  induction a with
  | nil => rw [List.nil_append, fields, if_pos hc]
  | cons x a ih =>
    have hx : ¬sep x = true := by simp [h x List.mem_cons_self]
    have hrest : ∀ y ∈ a, sep y = false := fun y hy => h y (List.mem_cons_of_mem x hy)
    rw [List.cons_append, fields, if_neg hx, ih hrest]

theorem length_fields (sep : Char → Bool) (s : List Char) :
    (fields sep s).length = s.countP sep + 1 := by
  induction s with
  | nil => rfl
  | cons c s ih =>
    obtain ⟨part, parts, hparts⟩ := List.exists_cons_of_ne_nil (fields_ne_nil sep s)
    rw [hparts, List.length_cons] at ih
    unfold fields
    by_cases hc : sep c = true
    · simp [hc, hparts, ih]
    · simp [hc, hparts, ih]

theorem countP_eq_zero_of_none (h : ∀ c ∈ s, sep c = false) : s.countP sep = 0 := by
  rw [List.countP_eq_zero]
  intro c hc
  simp [h c hc]

/-- A text has no separator, or one, or more of them. -/
theorem separated_cases (sep : Char → Bool) (s : List Char) :
    (∀ c ∈ s, sep c = false) ∨
    (∃ a c b, s = a ++ c :: b ∧ sep c = true ∧ (∀ x ∈ a, sep x = false) ∧ ∀ x ∈ b, sep x = false) ∨
    2 ≤ s.countP sep := by
  cases hfound : s.find? sep with
  | none =>
    left
    intro c hc
    simpa using List.find?_eq_none.1 hfound c hc
  | some c =>
    right
    obtain ⟨hc, a, b, rfl, ha⟩ := List.find?_eq_some_iff_append.1 hfound
    have hfirst : ∀ x ∈ a, sep x = false := by
      intro x hx
      simpa using ha x hx
    by_cases hb : b.countP sep = 0
    · left
      refine ⟨a, c, b, rfl, hc, hfirst, ?_⟩
      intro x hx
      simpa using List.countP_eq_zero.1 hb x hx
    · right
      rw [List.countP_append, List.countP_cons_of_pos hc]
      omega

end Fields

theorem trim_sublist (s : List Char) : (trim s).Sublist s := by
  have hback := (List.dropWhile_sublist isBlank (l := (s.dropWhile isBlank).reverse)).reverse
  rw [List.reverse_reverse] at hback
  exact hback.trans (List.dropWhile_sublist isBlank)

/-- Replacing characters by others that are as blank does not change what is trimmed. -/
theorem trim_map {f : Char → Char} (h : ∀ c, isBlank (f c) = isBlank c) (s : List Char) :
    trim (s.map f) = (trim s).map f := by
  have hblank : isBlank ∘ f = isBlank := funext h
  simp only [trim, List.dropWhile_map, hblank, ← List.map_reverse]

theorem length_le_utf8ByteSize (s : String) : s.toList.length ≤ s.utf8ByteSize := by
  rw [← String.ofList_toList (s := s), String.utf8ByteSize_ofList, String.toList_ofList]
  generalize s.toList = cs
  induction cs with
  | nil => simp
  | cons c cs ih =>
    have hpos := Char.utf8Size_pos c
    simp
    omega

end Text

namespace Amount

open Text (fields)

/-! ## Decimals -/

/-- A plain decimal as it is written. -/
structure Decimal where
  negative : Bool
  whole : List Char
  /-- The separator, if there is one. -/
  mark : Option Char
  /-- The digits after the separator. -/
  fraction : List Char
  digits : ∀ c ∈ whole ++ fraction, c.isDigit = true
  nonempty : whole ++ fraction ≠ []
  separates : ∀ c ∈ mark, isSeparator c = true
  unmarked : mark = none → fraction = []

/-- A text with a minus sign in front, or without one. -/
def signed (negative : Bool) (s : List Char) : List Char :=
  if negative then '-' :: s else s

namespace Decimal

variable (d : Decimal)

def chars : List Char :=
  signed d.negative (d.whole ++ d.mark.toList ++ d.fraction)

/-- The integer that the digits write, on either side of the separator, with the sign. -/
def numeric : Int :=
  let n : Int := Nat.ofDigitChars 10 (d.whole ++ d.fraction) 0
  if d.negative then -n else n

/-- How many digits there are after the separator. -/
def places : Nat :=
  d.fraction.length

/-- The text is this decimal, and perhaps blanks around it. -/
def WrittenIn (s : String) : Prop :=
  Text.trim s.toList = d.chars

end Decimal

theorem isSeparator_of_isDigit {c : Char} (h : c.isDigit = true) : isSeparator c = false := by
  by_contra hsep
  rw [Bool.not_eq_false, isSeparator, Bool.or_eq_true, beq_iff_eq, beq_iff_eq] at hsep
  rcases hsep with rfl | rfl <;> revert h <;> decide

theorem splitSign_signed {negative : Bool} {s : List Char} (h : ∀ c ∈ s, c ≠ '-') :
    splitSign (signed negative s) = (negative, s) := by
  cases negative with
  | true => rfl
  | false =>
    cases s with
    | nil => rfl
    | cons c s =>
      have hc : c ≠ '-' := h c List.mem_cons_self
      simp [signed, splitSign, hc]

theorem signed_splitSign (s : List Char) : signed (splitSign s).1 (splitSign s).2 = s := by
  unfold splitSign
  split <;> rfl

theorem mem_signed {negative : Bool} {s : List Char} {c : Char} (h : c ∈ s) :
    c ∈ signed negative s := by
  cases negative with
  | true => exact List.mem_cons_of_mem _ h
  | false => exact h

namespace Decimal

variable (d : Decimal)

theorem isDigit_whole {c : Char} (h : c ∈ d.whole) : c.isDigit = true :=
  d.digits c (List.mem_append_left _ h)

theorem isDigit_fraction {c : Char} (h : c ∈ d.fraction) : c.isDigit = true :=
  d.digits c (List.mem_append_right _ h)

theorem chars_ne_nil : d.chars ≠ [] := by
  intro h
  obtain ⟨c, cs, hcs⟩ := List.exists_cons_of_ne_nil d.nonempty
  have hmem : c ∈ d.whole ++ d.mark.toList ++ d.fraction := by
    have hc : c ∈ d.whole ++ d.fraction := hcs ▸ List.mem_cons_self
    simp only [List.mem_append] at hc ⊢
    tauto
  have hchars : c ∈ d.chars := mem_signed hmem
  rw [h] at hchars
  exact List.not_mem_nil hchars

/-- No character but the first is a sign. -/
theorem no_sign_inside {c : Char} (h : c ∈ d.whole ++ d.mark.toList ++ d.fraction) :
    c ≠ '-' ∧ c ≠ '+' := by
  have hdigit : c.isDigit = true ∨ isSeparator c = true := by
    simp only [List.mem_append, Option.mem_toList] at h
    rcases h with (h | h) | h
    · exact .inl (d.isDigit_whole h)
    · exact .inr (d.separates c h)
    · exact .inl (d.isDigit_fraction h)
  constructor <;> rintro rfl <;> revert hdigit <;> decide

theorem no_sign : '+' ∉ d.chars ∧ '-' ∉ d.chars.tail := by
  have hplus : '+' ∉ d.whole ++ d.mark.toList ++ d.fraction := fun h => (d.no_sign_inside h).2 rfl
  have hminus : '-' ∉ d.whole ++ d.mark.toList ++ d.fraction := fun h => (d.no_sign_inside h).1 rfl
  rw [chars]
  cases d.negative with
  | true => exact ⟨by simpa [signed] using hplus, hminus⟩
  | false => exact ⟨hplus, fun h => hminus (List.mem_of_mem_tail h)⟩

end Decimal

/-! ## Reading -/

/-- What the parts before and after the separator are read as. -/
def readParts (input : String) (whole fraction : List Char) : Except Error (Int × Int32) :=
  let (negative, rest) := splitSign whole
  let digits := rest ++ fraction
  if Text.isNumeral digits then
    let n : Int := Text.value digits
    .ok (if negative then -n else n, Int32.ofNat fraction.length)
  else .error (.notNumeric input)

section Reading

variable {s : String} {whole fraction : List Char}

theorem parseDecimal_empty (h : Text.trim s.toList = []) : parseDecimal s = .error .empty := by
  simp [parseDecimal, h]

theorem parseDecimal_unmarked (hne : Text.trim s.toList ≠ [])
    (h : ∀ c ∈ Text.trim s.toList, isSeparator c = false) :
    parseDecimal s = readParts s (Text.trim s.toList) [] := by
  simp only [parseDecimal, List.isEmpty_iff, hne, if_false, Text.fields_eq_singleton h]
  rfl

theorem parseDecimal_marked {c : Char} (htext : Text.trim s.toList = whole ++ c :: fraction)
    (hc : isSeparator c = true) (hwhole : ∀ x ∈ whole, isSeparator x = false)
    (hfraction : ∀ x ∈ fraction, isSeparator x = false) :
    parseDecimal s = readParts s whole fraction := by
  have hne : whole ++ c :: fraction ≠ [] := by simp
  simp only [parseDecimal, htext, List.isEmpty_iff, hne, if_false,
    Text.fields_append_cons hwhole hc, Text.fields_eq_singleton hfraction]
  rfl

theorem parseDecimal_many (h : 2 ≤ (Text.trim s.toList).countP isSeparator) :
    parseDecimal s = .error (.tooManySeparators s) := by
  have hne : Text.trim s.toList ≠ [] := by
    intro hnil
    rw [hnil] at h
    exact absurd h (by decide)
  have hlength := Text.length_fields isSeparator (Text.trim s.toList)
  simp only [parseDecimal, List.isEmpty_iff, hne, if_false]
  split
  · rename_i hfields
    rw [hfields, List.length_singleton] at hlength
    omega
  · rename_i hfields
    simp only [hfields, List.length_cons, List.length_nil] at hlength
    omega
  · rfl

theorem readParts_signed {negative : Bool} (hdigits : ∀ c ∈ whole ++ fraction, c.isDigit = true)
    (hne : whole ++ fraction ≠ []) :
    readParts s (signed negative whole) fraction =
      .ok (if negative then -(Text.value (whole ++ fraction) : Int)
        else Text.value (whole ++ fraction), Int32.ofNat fraction.length) := by
  have hsign : ∀ c ∈ whole, c ≠ '-' := by
    rintro c hc rfl
    exact absurd (hdigits '-' (List.mem_append_left _ hc)) (by decide)
  have hnumeral := Text.isNumeral_iff.2 ⟨hne, hdigits⟩
  simp only [readParts, splitSign_signed hsign, hnumeral, if_true]

/-- The parts are read if they are a sign and digits, and are not numeric otherwise. -/
theorem readParts_cases (s : String) (whole fraction : List Char) :
    (∃ negative rest, whole = signed negative rest ∧ rest ++ fraction ≠ [] ∧
      ∀ c ∈ rest ++ fraction, c.isDigit = true) ∨
    readParts s whole fraction = .error (.notNumeric s) := by
  by_cases hnumeral : Text.isNumeral ((splitSign whole).2 ++ fraction) = true
  · obtain ⟨hne, hdigits⟩ := Text.isNumeral_iff.1 hnumeral
    exact .inl ⟨_, _, (signed_splitSign whole).symm, hne, hdigits⟩
  · right
    simp only [readParts, hnumeral]
    rfl

end Reading

variable {s : String} {d : Decimal}

theorem Decimal.WrittenIn.ne_nil (h : d.WrittenIn s) : Text.trim s.toList ≠ [] := by
  rw [h]
  exact d.chars_ne_nil

/-- **A decimal is read as the number that it writes.** -/
theorem parseDecimal_written (h : d.WrittenIn s) :
    parseDecimal s = .ok (d.numeric, Int32.ofNat d.places) := by
  have hwhole : ∀ c ∈ signed d.negative d.whole, isSeparator c = false := by
    intro c hc
    cases hsign : d.negative with
    | true =>
      rw [hsign] at hc
      rcases List.mem_cons.1 hc with rfl | hc
      · decide
      · exact isSeparator_of_isDigit (d.isDigit_whole hc)
    | false =>
      rw [hsign] at hc
      exact isSeparator_of_isDigit (d.isDigit_whole hc)
  have hfraction : ∀ c ∈ d.fraction, isSeparator c = false :=
    fun c hc => isSeparator_of_isDigit (d.isDigit_fraction hc)
  have hread : readParts s (signed d.negative d.whole) d.fraction = _ :=
    readParts_signed d.digits d.nonempty
  have hchars : d.chars = signed d.negative d.whole ++ (d.mark.toList ++ d.fraction) := by
    rw [Decimal.chars]
    cases d.negative <;> simp [signed]
  have hne := h.ne_nil
  rw [Decimal.WrittenIn, hchars] at h
  cases hmark : d.mark with
  | none =>
    have hnil := d.unmarked hmark
    rw [hmark, hnil] at h
    rw [hnil] at hread
    simp only [Option.toList_none, List.append_nil] at h
    rw [parseDecimal_unmarked hne (h ▸ hwhole), h, hread, Decimal.numeric, Decimal.places, hnil]
    rfl
  | some c =>
    rw [hmark] at h
    have hc : isSeparator c = true := d.separates c hmark
    have htext : Text.trim s.toList = signed d.negative d.whole ++ c :: d.fraction := h
    rw [parseDecimal_marked htext hc hwhole hfraction, hread]
    rfl

/-- What a text is read as, and why. -/
inductive Outcome (s : String) : Except Error (Int × Int32) → Prop where
  | empty (hempty : Text.trim s.toList = []) : Outcome s (.error .empty)
  | many (hmany : 2 ≤ (Text.trim s.toList).countP isSeparator) :
    Outcome s (.error (.tooManySeparators s))
  | read (d : Decimal) (hd : d.WrittenIn s) : Outcome s (.ok (d.numeric, Int32.ofNat d.places))
  | refused (hne : Text.trim s.toList ≠ []) (hfew : (Text.trim s.toList).countP isSeparator < 2)
    (hnone : ∀ d : Decimal, ¬d.WrittenIn s) : Outcome s (.error (.notNumeric s))

/-- A text is read by its parts, which are a sign and digits or are refused. -/
theorem Outcome.of_parts {whole fraction : List Char}
    (hparse : parseDecimal s = readParts s whole fraction) (hne : Text.trim s.toList ≠ [])
    (hfew : (Text.trim s.toList).countP isSeparator < 2)
    (hwritten : ∀ negative rest, whole = signed negative rest → rest ++ fraction ≠ [] →
      (∀ c ∈ rest ++ fraction, c.isDigit = true) → ∃ d : Decimal, d.WrittenIn s) :
    Outcome s (parseDecimal s) := by
  by_cases hexists : ∃ d : Decimal, d.WrittenIn s
  · obtain ⟨d, hd⟩ := hexists
    rw [parseDecimal_written hd]
    exact .read d hd
  · rcases readParts_cases s whole fraction with ⟨negative, rest, hsign, hdigits_ne, hdigits⟩ | herror
    · exact absurd (hwritten negative rest hsign hdigits_ne hdigits) hexists
    · rw [hparse, herror]
      exact .refused hne hfew fun d hd => hexists ⟨d, hd⟩

/-- **Every text has its outcome.** -/
theorem outcome (s : String) : Outcome s (parseDecimal s) := by
  by_cases hne : Text.trim s.toList = []
  · rw [parseDecimal_empty hne]
    exact .empty hne
  rcases Text.separated_cases isSeparator (Text.trim s.toList) with
    hnone | ⟨whole, c, fraction, htext, hc, hwhole, hfraction⟩ | hmany
  · have hcount : (Text.trim s.toList).countP isSeparator = 0 := Text.countP_eq_zero_of_none hnone
    refine .of_parts (parseDecimal_unmarked hne hnone) hne (by omega) ?_
    intro negative rest htext hdigits_ne hdigits
    refine ⟨⟨negative, rest, none, [], hdigits, hdigits_ne, nofun, fun _ => rfl⟩, ?_⟩
    simpa [Decimal.WrittenIn, Decimal.chars] using htext
  · have hcount : (Text.trim s.toList).countP isSeparator = 1 := by
      rw [htext, List.countP_append, List.countP_cons_of_pos hc,
        Text.countP_eq_zero_of_none hwhole, Text.countP_eq_zero_of_none hfraction]
    refine .of_parts (parseDecimal_marked htext hc hwhole hfraction) hne (by omega) ?_
    rintro negative rest rfl hdigits_ne hdigits
    have hmark : ∀ x ∈ some c, isSeparator x = true := by
      rintro x ⟨⟩
      exact hc
    refine ⟨⟨negative, rest, some c, fraction, hdigits, hdigits_ne, hmark, nofun⟩, ?_⟩
    rw [Decimal.WrittenIn, htext, Decimal.chars]
    cases negative <;> simp [signed]
  · rw [parseDecimal_many hmany]
    exact .many hmany

/-- **What is read is a decimal.** -/
theorem exists_written {r : Int × Int32} (h : parseDecimal s = .ok r) :
    ∃ d : Decimal, d.WrittenIn s ∧ r = (d.numeric, Int32.ofNat d.places) := by
  have houtcome := outcome s
  rw [h] at houtcome
  cases houtcome with
  | read d hd => exact ⟨d, hd, rfl⟩

theorem Decimal.WrittenIn.places_le (h : d.WrittenIn s) : d.places ≤ s.utf8ByteSize := by
  have hplaces : d.places ≤ d.chars.length := by
    rw [Decimal.places, Decimal.chars]
    cases d.negative <;> simp [signed] <;> omega
  have htrim := (Text.trim_sublist s.toList).length_le
  have hbytes := Text.length_le_utf8ByteSize s
  rw [h] at htrim
  omega

/-- The number of places of a text of ordinary size is no more than a 32-bit integer holds. -/
theorem Decimal.WrittenIn.toInt_places (h : d.WrittenIn s) (hsize : s.utf8ByteSize < 2 ^ 31) :
    (Int32.ofNat d.places).toInt = d.places :=
  Int32.toInt_ofNat_of_lt (Nat.lt_of_le_of_lt h.places_le hsize)

/-! ## Either separator -/

/-- The character with a comma turned into a point. -/
def toPoint (c : Char) : Char :=
  if c = ',' then '.' else c

theorem isBlank_toPoint (c : Char) : Text.isBlank (toPoint c) = Text.isBlank c := by
  unfold toPoint
  split
  · subst c
    decide
  · rfl

/-- The parts of a text are the same with either separator. -/
theorem fields_toPoint (s : List Char) :
    fields isSeparator s = fields (· == '.') (s.map toPoint) := by
  induction s with
  | nil => rfl
  | cons c s ih =>
    by_cases hcomma : c = ','
    · subst c
      simp [fields, isSeparator, toPoint, ih]
    · simp [fields, isSeparator, toPoint, hcomma, ih]

/-- The error with another text in place of the one that it tells of. -/
def Error.about (input : String) : Error → Error
  | empty => empty
  | tooManySeparators _ => tooManySeparators input
  | notNumeric _ => notNumeric input
  | unrecognized _ => unrecognized input

theorem parseDecimal_toPoint {s' : String} (h : s'.toList.map toPoint = s.toList.map toPoint) :
    parseDecimal s' = (parseDecimal s).mapError (Error.about s') := by
  have htrim : (Text.trim s'.toList).map toPoint = (Text.trim s.toList).map toPoint := by
    rw [← Text.trim_map isBlank_toPoint, ← Text.trim_map isBlank_toPoint, h]
  have hempty : (Text.trim s'.toList).isEmpty = (Text.trim s.toList).isEmpty := by
    rw [← List.isEmpty_map (f := toPoint), htrim, List.isEmpty_map]
  have hfields : fields isSeparator (Text.trim s'.toList) = fields isSeparator (Text.trim s.toList) := by
    rw [fields_toPoint, fields_toPoint, htrim]
  have hread (whole fraction : List Char) : readParts s' whole fraction =
      (readParts s whole fraction).mapError (Error.about s') := by
    simp only [readParts]
    split <;> rfl
  simp only [parseDecimal, hempty, hfields]
  split
  · rfl
  · split
    · exact hread _ _
    · exact hread _ _
    · rfl

/-! ## The grammar -/

/-- **The grammar of plain decimals.** Blanks around a text do not count. A text of less than two
gigabytes is empty if there is nothing else, and has too many separators if there are two or more. It is
read exactly if it is a decimal, and then as the integer that its digits write with its sign, and the number
of digits after the separator. In all other cases it is not numeric. So no text that is read has a plus
sign, or a minus sign anywhere but in front; and to put a comma for a point, or a point for a comma, changes
nothing but the text that an error tells of. -/
theorem parseDecimal_grammar (s : String) (hsize : s.utf8ByteSize < 2 ^ 31) :
    let text := Text.trim s.toList
    (parseDecimal s = .error .empty ↔ text = []) ∧
    (parseDecimal s = .error (.tooManySeparators s) ↔ 2 ≤ text.countP isSeparator) ∧
    (∀ n e, parseDecimal s = .ok (n, e) ↔
      ∃ d : Decimal, d.WrittenIn s ∧ n = d.numeric ∧ e.toInt = d.places) ∧
    (parseDecimal s = .error (.notNumeric s) ↔
      text ≠ [] ∧ text.countP isSeparator < 2 ∧ ∀ d : Decimal, ¬d.WrittenIn s) ∧
    (∀ r, parseDecimal s = .ok r → '+' ∉ text ∧ '-' ∉ text.tail) ∧
    ∀ s' : String, s'.toList.map toPoint = s.toList.map toPoint →
      parseDecimal s' = (parseDecimal s).mapError (Error.about s') := by
  intro text
  have houtcome := outcome s
  refine ⟨⟨fun h => ?_, parseDecimal_empty⟩, ⟨fun h => ?_, parseDecimal_many⟩,
    fun n e => ⟨fun h => ?_, ?_⟩, ⟨fun h => ?_, ?_⟩, fun r h => ?_, fun s' => parseDecimal_toPoint⟩
  · rw [h] at houtcome
    cases houtcome with
    | empty hempty => exact hempty
  · rw [h] at houtcome
    cases houtcome with
    | many hmany => exact hmany
  · obtain ⟨d, hd, hr⟩ := exists_written h
    obtain ⟨rfl, rfl⟩ := Prod.mk.inj hr
    exact ⟨d, hd, rfl, hd.toInt_places hsize⟩
  · rintro ⟨d, hd, rfl, he⟩
    have hplaces : e = Int32.ofNat d.places := by
      rw [← Int32.toInt_inj, he, hd.toInt_places hsize]
    rw [parseDecimal_written hd, hplaces]
  · rw [h] at houtcome
    cases houtcome with
    | refused hne hfew hnone => exact ⟨hne, hfew, hnone⟩
  · rintro ⟨hne, hfew, hnone⟩
    generalize parseDecimal s = result at houtcome ⊢
    cases houtcome with
    | empty hempty => exact absurd hempty hne
    | many hmany => exact absurd hmany (Nat.not_le.2 hfew)
    | read d hd => exact absurd hd (hnone d)
    | refused => rfl
  · obtain ⟨d, hd, -⟩ := exists_written h
    have htext : text = d.chars := hd
    rw [htext]
    exact d.no_sign

/-- A negative number with a comma, and blanks around it. -/
theorem parseDecimal_grammar_comma :
    (" -12,50 ".utf8ByteSize < 2 ^ 31) ∧ parseDecimal " -12,50 " = .ok (-1250, 2) := by
  have hsize : " -12,50 ".utf8ByteSize < 2 ^ 31 := by decide
  let d : Decimal :=
    ⟨true, ['1', '2'], some ',', ['5', '0'], by simp, by simp, by simp [isSeparator], nofun⟩
  have hd : d.WrittenIn " -12,50 " := by
    show _ = _
    decide
  exact ⟨hsize, ((parseDecimal_grammar _ hsize).2.2.1 (-1250) 2).2 ⟨d, hd, by decide, by decide⟩⟩

end Amount

end ChainIndex
