import ChainIndex.Text.Blank
import ChainIndex.Text.Digits
import Mathlib.Data.List.Basic

/-!
# Plain decimals are read back

A number that is written in plain digits has no blanks to trim and no sign to skip, so **its text is
read back as the number itself** (`word64?_toString`).
-/

namespace ChainIndex.Text

theorem value_toDigits (n : Nat) : value (Nat.toDigits 10 n) = n :=
  Nat.ofDigitChars_ten_toDigits

/-- Different numbers have different texts. -/
theorem toString_inj {m n : Nat} (h : toString m = toString n) : m = n := by
  have htext : ∀ k : Nat, (toString k).toList = Nat.toDigits 10 k := fun _ => Nat.toList_repr
  rw [← value_toDigits m, ← value_toDigits n, ← htext, ← htext, h]

theorem toString_ne_empty (n : Nat) : toString n ≠ "" := by
  intro h
  have htext : (toString n).toList = Nat.toDigits 10 n := Nat.toList_repr
  rw [h] at htext
  exact Nat.toDigits_ne_nil htext.symm

theorem isDigit_of_mem {n : Nat} {c : Char} (h : c ∈ Nat.toDigits 10 n) : c.isDigit = true :=
  Nat.isDigit_of_mem_toDigits (by decide) (by decide) h

theorem isNumeral_iff {s : List Char} :
    isNumeral s = true ↔ s ≠ [] ∧ ∀ c ∈ s, c.isDigit = true := by
  simp [isNumeral]

theorem isNumeral_toDigits (n : Nat) : isNumeral (Nat.toDigits 10 n) = true :=
  isNumeral_iff.2 ⟨Nat.toDigits_ne_nil, fun _ hc => isDigit_of_mem hc⟩

theorem isDigit_zeros {k : Nat} {c : Char} (h : c ∈ List.replicate k '0') : c.isDigit = true := by
  rw [List.eq_of_mem_replicate h]
  rfl

theorem value_zeros (k : Nat) : value (List.replicate k '0') = 0 := by
  induction k with
  | zero => rfl
  | succ k ih =>
    rw [List.replicate_succ', value_append, ih]
    rfl

/-- No zero stands in front. -/
theorem head?_toDigits {n : Nat} (h : 0 < n) : (Nat.toDigits 10 n).head? ≠ some '0' := by
  induction n using Nat.strongRecOn with
  | ind n ih =>
    by_cases hlt : n < 10
    · have hfirst : ∀ d < 10, 0 < d → [Nat.digitChar d].head? ≠ some '0' := by decide
      rw [Nat.toDigits_of_lt_base hlt]
      exact hfirst n hlt h
    · rw [Nat.toDigits_of_base_le (by decide) (by omega),
        List.head?_append_of_ne_nil _ Nat.toDigits_ne_nil]
      exact ih _ (by omega) (by omega)

theorem isBlank_of_isDigit {c : Char} (h : c.isDigit = true) : isBlank c = false := by
  have hrange : 48 ≤ c.toNat ∧ c.toNat ≤ 57 := by
    simp only [Char.isDigit, Bool.and_eq_true, decide_eq_true_eq] at h
    exact ⟨UInt32.le_iff_toNat_le.1 h.1, UInt32.le_iff_toNat_le.1 h.2⟩
  simp only [isBlank, Bool.or_eq_false_iff, Bool.and_eq_false_iff, decide_eq_false_iff_not,
    beq_eq_false_iff_ne]
  omega

theorem dropWhile_isBlank {s : List Char} (h : ∀ c ∈ s, isBlank c = false) :
    s.dropWhile isBlank = s := by
  cases s with
  | nil => rfl
  | cons c s => rw [List.dropWhile_cons_of_neg (by simp [h c List.mem_cons_self])]

theorem trim_eq_self {s : List Char} (h : ∀ c ∈ s, isBlank c = false) : trim s = s := by
  have hreverse : ∀ c ∈ s.reverse, isBlank c = false := fun c hc => h c (List.mem_reverse.1 hc)
  rw [trim, dropWhile_isBlank h, dropWhile_isBlank hreverse, List.reverse_reverse]

theorem unsigned?_toDigits {bound n : Nat} (h : n < bound) :
    unsigned? bound (Nat.toDigits 10 n) = some n := by
  have hplus : ∀ rest, Nat.toDigits 10 n ≠ '+' :: rest := by
    intro rest heq
    have hdigit := isDigit_of_mem (n := n) (c := '+') (heq ▸ List.mem_cons_self)
    exact absurd hdigit (by decide)
  rw [unsigned?]
  · simp [isNumeral_toDigits, value_toDigits, h]
  · exact fun rest heq => hplus rest heq

/-- **The text of a word is read back as that word**, also where blanks are allowed around it. -/
theorem word64?_toString (n : UInt64) : word64? (trimmed (toString n)) = some n := by
  have htext : (toString n : String).toList = Nat.toDigits 10 n.toNat := Nat.toList_repr
  have hblank : ∀ c ∈ Nat.toDigits 10 n.toNat, isBlank c = false := fun c hc =>
    isBlank_of_isDigit (isDigit_of_mem hc)
  rw [word64?, trimmed, String.toList_ofList, htext, trim_eq_self hblank,
    unsigned?_toDigits n.toNat_lt]
  exact congrArg some (UInt64.ofNat_toNat)

end ChainIndex.Text
