import ChainIndex.Proofs.Decimals
import ChainIndex.Task.Id

/-!
# Integers and identifiers are read back from their text

An integer is written with its sign, and an identifier as 32 hexadecimal digits in groups.
`signed?_toString` and `ofText?_text`: **the text is read back as what it was written from.**
-/

namespace ChainIndex

namespace Text

/-- **The text of an integer is read back as that integer.** -/
theorem signed?_toString (n : Int) : signed? (toString n).toList = some n := by
  have hbody (k : Nat) : (Nat.toDigits 10 k).head?.any Char.isDigit = true ∧
      (Nat.toDigits 10 k).filter (· != '_') = Nat.toDigits 10 k ∧
      (Nat.toDigits 10 k).all Char.isDigit = true := by
    refine ⟨?_, ?_, List.all_eq_true.2 fun c hc => isDigit_of_mem hc⟩
    · obtain ⟨c, cs, hcs⟩ := List.exists_cons_of_ne_nil (Nat.toDigits_ne_nil (n := k) (b := 10))
      rw [hcs]
      exact isDigit_of_mem (hcs ▸ List.mem_cons_self)
    · refine List.filter_eq_self.2 fun c hc => ?_
      have hdigit := isDigit_of_mem hc
      rw [bne_iff_ne]
      rintro rfl
      cases hdigit
  cases n with
  | ofNat k =>
    have htext : (toString (Int.ofNat k)).toList = Nat.toDigits 10 k := Nat.toList_repr
    obtain ⟨hhead, hfilter, hall⟩ := hbody k
    have hsign {c : Char} (hc : c.isDigit = false) (cs : List Char) :
        Nat.toDigits 10 k ≠ c :: cs := by
      intro heq
      rw [heq] at hhead
      exact Bool.false_ne_true (hc.symm.trans hhead)
    rw [htext, signed?]
    · rw [hhead, hfilter, hall, value_toDigits]
      rfl
    · exact fun cs => hsign rfl cs
    · exact fun cs => hsign rfl cs
  | negSucc k =>
    have htext : (toString (Int.negSucc k)).toList = '-' :: Nat.toDigits 10 (k + 1) := by
      show ("-" ++ Nat.repr (k + 1)).toList = _
      rw [String.toList_append, Nat.toList_repr]
      rfl
    obtain ⟨hhead, hfilter, hall⟩ := hbody (k + 1)
    rw [htext, signed?, hhead, hfilter, hall, value_toDigits]
    rfl

namespace Hex

/-- The number that hexadecimal digits write. -/
def number? (digits : List Char) : Option Nat :=
  (digits.mapM value?).map fun values => values.foldl (fun n v => 16 * n + v) 0

theorem number?_append {xs ys : List Char} {m : Nat} (h : number? xs = some m) :
    number? (xs ++ ys) =
      (ys.mapM value?).map fun values => values.foldl (fun n v => 16 * n + v) m := by
  obtain ⟨vs, hvs, rfl⟩ := Option.map_eq_some_iff.1 h
  rw [number?, List.mapM_append, hvs]
  simp only [Option.bind_eq_bind, Option.bind_some, Option.pure_def]
  rcases ys.mapM value? with _ | ws
  · rfl
  · simp

theorem value?_digitChar {n : Nat} (h : n < 16) : value? n.digitChar = some n := by
  have hall : ∀ n ∈ List.range 16, value? n.digitChar = some n := by decide
  exact hall n (List.mem_range.2 h)

theorem number?_toDigits (n : Nat) : number? (Nat.toDigits 16 n) = some n := by
  induction n using Nat.strongRecOn with
  | ind n ih =>
    by_cases hlt : n < 16
    · rw [Nat.toDigits_of_lt_base hlt, number?, List.mapM_cons, value?_digitChar hlt]
      simp
    · have hmod := value?_digitChar (Nat.mod_lt n (show 0 < 16 by decide))
      rw [Nat.toDigits_of_base_le (by decide) (Nat.not_lt.1 hlt),
        number?_append (ih (n / 16) (by omega)), List.mapM_cons, hmod]
      simp only [List.mapM_nil, Option.bind_eq_bind, Option.bind_some, Option.pure_def,
        Option.map_some, List.foldl_cons, List.foldl_nil]
      congr 1
      omega

theorem number?_zeros (k : Nat) : number? (List.replicate k '0') = some 0 := by
  induction k with
  | zero => rfl
  | succ k ih =>
    rw [List.replicate_succ', number?_append ih]
    rfl

theorem exists_value?_of_mem {n : Nat} {c : Char} (h : c ∈ Nat.toDigits 16 n) :
    ∃ v, value? c = some v := by
  induction n using Nat.strongRecOn with
  | ind n ih =>
    by_cases hlt : n < 16
    · rw [Nat.toDigits_of_lt_base hlt, List.mem_singleton] at h
      exact ⟨n, h ▸ value?_digitChar hlt⟩
    · rw [Nat.toDigits_of_base_le (by decide) (Nat.not_lt.1 hlt), List.mem_append,
        List.mem_singleton] at h
      rcases h with h | h
      · exact ih (n / 16) (by omega) h
      · exact ⟨n % 16, h ▸ value?_digitChar (Nat.mod_lt n (by decide))⟩

end Hex

end Text

namespace TaskId

open Text.Hex (number? value?)

variable {digits : List Char}

theorem ofDigits?_eq {n : Nat} (hlength : digits.length = 32) (h : number? digits = some n) :
    ofDigits? digits = some ⟨BitVec.ofNat 128 n⟩ := by
  obtain ⟨vs, hvs, rfl⟩ := Option.map_eq_some_iff.1 h
  simp [ofDigits?, hlength, hvs]

/-- The groups without the hyphens between them. -/
theorem filter_grouped (h : ∀ c ∈ digits, c ≠ '-') : (grouped digits).filter (· != '-') = digits := by
  have hkeep {part : List Char} (hpart : part ⊆ digits) : part.filter (· != '-') = part :=
    List.filter_eq_self.2 fun c hc => bne_iff_ne.2 (h c (hpart hc))
  have hgroup (n : Nat) : ((digits.drop n).take 4).filter (· != '-') = (digits.drop n).take 4 :=
    hkeep fun c hc => List.mem_of_mem_drop (List.mem_of_mem_take hc)
  have hjoin (n : Nat) : (digits.drop n).take 4 ++ digits.drop (n + 4) = digits.drop n := by
    rw [← List.drop_drop, List.take_append_drop]
  rw [grouped]
  simp only [List.filter_append, List.filter_cons, bne_self_eq_false, Bool.false_eq_true, if_false,
    List.append_assoc, hgroup, hkeep (List.take_subset 8 digits), hkeep (List.drop_subset 20 digits)]
  rw [hjoin 16, hjoin 12, hjoin 8, List.take_append_drop]

theorem length_grouped (h : digits.length = 32) : (grouped digits).length = 36 := by
  simp [grouped, h]

/-- **The text of an identifier is read back as that identifier.** -/
theorem ofText?_text (id : TaskId) : ofText? id.text = some id := by
  obtain ⟨bits⟩ := id
  obtain ⟨digits, hdigits⟩ : ∃ digits, digits =
      List.replicate (32 - (Nat.toDigits 16 bits.toNat).length) '0' ++ Nat.toDigits 16 bits.toNat :=
    ⟨_, rfl⟩
  have hlength : digits.length = 32 := by
    have hle := (Nat.length_toDigits_le_iff (b := 16) (k := 32) (by decide) (by decide)).2 bits.isLt
    rw [hdigits, List.length_append, List.length_replicate]
    omega
  have hnumber : number? digits = some bits.toNat := by
    rw [hdigits, Text.Hex.number?_append (Text.Hex.number?_zeros _)]
    exact Text.Hex.number?_toDigits _
  have hhyphen : ∀ c ∈ digits, c ≠ '-' := by
    intro c hc
    rw [hdigits, List.mem_append] at hc
    rcases hc with hc | hc
    · rw [List.eq_of_mem_replicate hc]
      decide
    · obtain ⟨v, hv⟩ := Text.Hex.exists_value?_of_mem hc
      rintro rfl
      cases hv
  have hgrouped := length_grouped hlength
  rw [ofText?, text, ← hdigits, String.toList_ofList, ofChars?, if_neg (by omega), if_pos hgrouped,
    ofGroups?, filter_grouped hhyphen, if_pos rfl, ofDigits?_eq hlength hnumber,
    BitVec.ofNat_toNat, BitVec.setWidth_eq]

end TaskId

end ChainIndex
