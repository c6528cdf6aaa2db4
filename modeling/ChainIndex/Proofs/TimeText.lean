import ChainIndex.Proofs.Calendar
import ChainIndex.Proofs.Decimals
import ChainIndex.Time.Rfc3339
import Mathlib.Data.List.TakeWhile

/-!
# Times are read back from their text

A time is written as numbers with marks between them. Each number has exactly as many digits as its
reader takes, or ends at a mark, so **the text of a time is read back as that time** (`ofText?_text`): in
any year, with any fraction of a second, and in a leap second.
-/

namespace ChainIndex.Time

open Text (value isBlank)

/-! ## Numbers -/

section Numbers

variable {ds rest : List Char} {most width n : Nat} {c : Char}

theorem padded_spec (width n : Nat) :
    value (padded width n) = n ∧ (∀ c ∈ padded width n, c.isDigit = true) ∧
      padded width n ≠ [] := by
  refine ⟨?_, ?_, ?_⟩
  · have hzeros : ∀ k, value (List.replicate k '0') = 0 := by
      intro k
      induction k with
      | zero => rfl
      | succ k ih =>
        rw [List.replicate_succ', Text.value_append, ih]
        rfl
    rw [padded, Text.value_append, hzeros, Text.value_toDigits, Nat.zero_mul, Nat.zero_add]
  · intro c hc
    rcases List.mem_append.1 hc with hzero | hdigit
    · rw [List.eq_of_mem_replicate hzero]
      rfl
    · exact Text.isDigit_of_mem hdigit
  · exact List.append_ne_nil_of_right_ne_nil _ Nat.toDigits_ne_nil

theorem length_padded (hwidth : 0 < width) (h : n < 10 ^ width) : (padded width n).length = width := by
  have hlength := (Nat.length_toDigits_le_iff (by decide) hwidth).2 h
  rw [padded, List.length_append, List.length_replicate]
  omega

/-- Digits are read up to a character that is none. -/
theorem takeWhile_digits (hds : ∀ c ∈ ds, c.isDigit = true) (hc : c.isDigit = false) :
    (ds ++ c :: rest).takeWhile Char.isDigit = ds := by
  rw [List.takeWhile_append_of_pos hds, List.takeWhile_cons_of_neg (by rw [hc]; exact nofun),
    List.append_nil]

theorem number?_digits (hne : ds ≠ []) (htake : ((ds ++ rest).take most).takeWhile Char.isDigit = ds) :
    number? most (ds ++ rest) = some (value ds, rest) := by
  rw [number?, htake, List.drop_left, if_neg (by simpa using hne)]

/-- A number of as many digits as may be read. -/
theorem number?_padded (hwidth : 0 < width) (h : n < 10 ^ width) (rest : List Char) :
    number? width (padded width n ++ rest) = some (n, rest) := by
  obtain ⟨hvalue, hdigits, hne⟩ := padded_spec width n
  have hlength := length_padded hwidth h
  rw [number?_digits hne, hvalue]
  rw [List.take_append_of_le_length hlength.ge, List.take_of_length_le hlength.le,
    List.takeWhile_eq_self_iff]
  exact hdigits

/-- A number of any length ends at a mark. -/
theorem number?_mark (width n : Nat) (hc : c.isDigit = false) (rest : List Char) :
    number? (padded width n ++ c :: rest).length (padded width n ++ c :: rest) =
      some (n, c :: rest) := by
  obtain ⟨hvalue, hdigits, hne⟩ := padded_spec width n
  rw [number?_digits hne, hvalue]
  rw [List.take_length, takeWhile_digits hdigits hc]

theorem skipBlank_cons (h : isBlank c = false) (s : List Char) : skipBlank (c :: s) = c :: s :=
  List.dropWhile_cons_of_neg (by rw [h]; exact nofun)

theorem skipBlank_padded (width n : Nat) (rest : List Char) :
    skipBlank (padded width n ++ rest) = padded width n ++ rest := by
  obtain ⟨-, hdigits, hne⟩ := padded_spec width n
  obtain ⟨d, ds, hds⟩ := List.exists_cons_of_ne_nil hne
  rw [hds, List.cons_append]
  refine skipBlank_cons (Text.isBlank_of_isDigit (hdigits d ?_)) _
  rw [hds]
  exact List.mem_cons_self

theorem part?_padded {low high : Nat} (hlow : low ≤ n) (hhigh : n ≤ high) (h : n < 100)
    (rest : List Char) : part? low high (padded 2 n ++ rest) = some (n, rest) := by
  rw [part?, skipBlank_padded, number?_padded (by decide) h]
  exact if_pos ⟨hlow, hhigh⟩

theorem mark?_cons (h : isBlank c = false) (s : List Char) : mark? c (c :: s) = some s := by
  rw [mark?, skipBlank_cons h]
  exact if_pos rfl

end Numbers

/-! ## The parts of a text -/

theorem year?_yearText (year : Int) (rest : List Char) :
    year? (skipBlank (yearText year ++ '-' :: rest)) = some (year, '-' :: rest) := by
  have hdash : '-'.isDigit = false := rfl
  rw [yearText]
  split
  · have habs : -(year.natAbs : Int) = year := by omega
    rw [List.cons_append, skipBlank_cons rfl, year?, number?_mark 4 _ hdash]
    exact congrArg (fun y => some (y, '-' :: rest)) habs
  · have habs : (year.natAbs : Int) = year := by omega
    split
    · rw [List.cons_append, skipBlank_cons rfl, year?, number?_mark 4 _ hdash]
      exact congrArg (fun y => some (y, '-' :: rest)) habs
    · obtain ⟨-, hdigits, hne⟩ := padded_spec 4 year.natAbs
      obtain ⟨d, ds, hds⟩ := List.exists_cons_of_ne_nil hne
      have hd : d.isDigit = true := hdigits d (hds ▸ List.mem_cons_self)
      have hread : number? 4 (padded 4 year.natAbs ++ '-' :: rest) =
          some (year.natAbs, '-' :: rest) := number?_padded (by decide) (by omega) _
      rw [skipBlank_padded, hds, List.cons_append, year?]
      · rw [← List.cons_append, ← hds, hread]
        exact congrArg (fun y => some (y, '-' :: rest)) habs
      · rintro s ⟨⟩
        cases hd
      · rintro s ⟨⟩
        cases hd

theorem fraction?_fractionText {nanos : Nat} (h : nanos < 1000000000) :
    fraction? (fractionText nanos ++ ['Z']) = some (nanos, ['Z']) := by
  have hread {width n : Nat} (hwidth : 0 < width) (hnine : width ≤ 9) (hn : n < 10 ^ width) :
      fraction? ('.' :: padded width n ++ ['Z']) = some (n * 10 ^ (9 - width), ['Z']) := by
    obtain ⟨hvalue, hdigits, hne⟩ := padded_spec width n
    have hlength := length_padded hwidth hn
    rw [List.cons_append, fraction?]
    rw [takeWhile_digits hdigits rfl, List.take_of_length_le (hlength.trans_le hnine), hvalue,
      List.drop_left, hlength, if_neg (by simpa using hne)]
    rfl
  rw [fractionText]
  split
  · rename_i hzero
    rw [hzero]
    rfl
  · split
    · rw [hread (by decide) (by decide) (by omega)]
      congr 2
      omega
    · split
      · rw [hread (by decide) (by decide) (by omega)]
        congr 2
        omega
      · rw [hread (by decide) (by decide) h]
        congr 2
        omega

/-! ## The whole text -/

theorem ofParts?_self (t : Time) : ofParts? t.seconds t.nanos = some t :=
  dif_pos t.valid

theorem ofLocal?_eq {date : Date} {hour minute second nanos : Nat} {t : Time}
    (hdate : date.isValid = true)
    (hclock : (if second = 60 then
        (date.toDays * daySeconds + hour * 3600 + minute * 60 + 59, nanos + 1000000000)
      else (date.toDays * daySeconds + hour * 3600 + minute * 60 + second, nanos)) =
        (t.seconds, t.nanos)) :
    ofLocal? date hour minute second nanos 0 = some t := by
  unfold ofLocal?
  dsimp only
  rw [hclock, hdate, sub_zero, ofParts?_self]
  rfl

/-- Calendar and clock give the time, in a leap second too. -/
theorem ofLocal?_parts (t : Time) {second : Nat} (hsecond : (t.seconds % daySeconds).toNat = second) :
    ofLocal? (Date.ofDays (t.seconds / daySeconds)) (second / 3600) (second / 60 % 60)
      (second % 60 + t.nanos / 1000000000) (t.nanos % 1000000000) 0 = some t := by
  obtain ⟨hdays, hdate⟩ := Date.toDays_ofDays (t.seconds / daySeconds)
  obtain ⟨-, -, hnanos⟩ := t.valid
  have hday : daySeconds = 86400 := rfl
  refine ofLocal?_eq hdate ?_
  rw [hday] at hsecond hdays ⊢
  rw [hdays]
  split
  · rename_i hleap
    ext1 <;> dsimp only <;> omega
  · rename_i hleap
    ext1 <;> dsimp only <;> omega

theorem bind_of_eq {α β : Type} {x : Option α} {f : α → Option β} {a : α} {r : Option β}
    (hx : x = some a) (hf : f a = r) : (x >>= f) = r := by
  rw [hx]
  exact hf

theorem ofChars?_chars (t : Time) : ofChars? t.chars = some t := by
  obtain ⟨date, hdate⟩ : ∃ date, date = Date.ofDays (t.seconds / daySeconds) := ⟨_, rfl⟩
  obtain ⟨second, hsecond⟩ : ∃ second, second = (t.seconds % daySeconds).toNat := ⟨_, rfl⟩
  obtain ⟨-, hvalid⟩ := Date.toDays_ofDays (t.seconds / daySeconds)
  obtain ⟨-, -, hnanos⟩ := t.valid
  have hlocal := ofLocal?_parts t hsecond.symm
  rw [← hdate] at hvalid hlocal
  simp only [Date.isValid, Bool.and_eq_true, decide_eq_true_eq] at hvalid
  obtain ⟨⟨⟨hmonth, hmonth'⟩, hday⟩, hday'⟩ := hvalid
  have hmost : Date.daysInMonth date.year date.month ≤ 31 := by
    unfold Date.daysInMonth
    split_ifs <;> omega
  have hlt : second < 86400 := by
    rw [hsecond, show daySeconds = 86400 from rfl]
    omega
  have hleap : second % 60 + t.nanos / 1000000000 ≤ 60 := by omega
  have hchars : t.chars = yearText date.year ++ '-' :: (padded 2 date.month ++ '-' ::
      (padded 2 date.day ++ 'T' :: (padded 2 (second / 3600) ++ ':' ::
        (padded 2 (second / 60 % 60) ++ ':' :: (padded 2 (second % 60 + t.nanos / 1000000000) ++
          (fractionText (t.nanos % 1000000000) ++ ['Z'])))))) := by
    rw [chars, hdate, hsecond]
    simp only [List.append_assoc, List.cons_append]
  have hdash (s : List Char) : mark? '-' ('-' :: s) = some s := mark?_cons rfl s
  have hcolon (s : List Char) : mark? ':' (':' :: s) = some s := mark?_cons rfl s
  have hoffset : offset? (skipBlank ['Z']) = some (0, []) := by decide
  rw [hchars, ofChars?]
  -- the date, and then the clock after the mark between them
  refine bind_of_eq (year?_yearText _ _) <| bind_of_eq (hdash _) <|
    bind_of_eq (part?_padded hmonth hmonth' (by omega) _) <| bind_of_eq (hdash _) <|
    bind_of_eq (part?_padded hday (hday'.trans hmost) (by omega) _) ?_
  exact bind_of_eq (part?_padded (Nat.zero_le _) (show second / 3600 ≤ 23 by omega) (by omega) _) <|
    bind_of_eq (hcolon _) <|
    bind_of_eq (part?_padded (Nat.zero_le _) (show second / 60 % 60 ≤ 59 by omega) (by omega) _) <|
    bind_of_eq (hcolon _) <| bind_of_eq (part?_padded (Nat.zero_le _) hleap (by omega) _) <|
    bind_of_eq (fraction?_fractionText (Nat.mod_lt _ (by decide))) <| bind_of_eq hoffset hlocal

/-- **The text of a time is read back as that time.** -/
theorem ofText?_text (t : Time) : ofText? t.text = some t := by
  rw [ofText?, text, String.toList_ofList, ofChars?_chars]

end ChainIndex.Time
