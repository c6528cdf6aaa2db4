import ChainIndex.Chain.Range
import Mathlib.Data.List.Basic

/-!
# Consecutive parts of a range

A range is cut twice on its way to the node, into big pages and these into parts. Both times the parts
lie inside the range (`mem_split`), follow one another without touching (`split_pairwise`), and
together hold **every height of the range** (`exists_mem_split`).
-/

namespace ChainIndex

namespace HeightRange

/-- The heights of a range. -/
def Holds (r : HeightRange) (h : Height) : Prop :=
  r.first ≤ h ∧ h ≤ r.last

instance (r : HeightRange) (h : Height) : Decidable (r.Holds h) :=
  inferInstanceAs (Decidable (_ ∧ _))

theorem mem_cuts {extra first last : Nat} {c : Nat × Nat} (hc : c ∈ cuts extra first last) :
    first ≤ c.1 ∧ c.1 ≤ c.2 ∧ c.2 ≤ last := by
  fun_induction cuts extra first last with
  | case1 first h => exact absurd hc List.not_mem_nil
  | case2 first h stop ih =>
    have hstop : first ≤ stop ∧ stop ≤ last := by omega
    rcases List.mem_cons.1 hc with rfl | hc
    · exact ⟨Nat.le_refl _, hstop.1, hstop.2⟩
    · have := ih hc
      omega

theorem exists_mem_cuts (extra : Nat) {first last h : Nat} (hfirst : first ≤ h) (hlast : h ≤ last) :
    ∃ c ∈ cuts extra first last, c.1 ≤ h ∧ h ≤ c.2 := by
  -- the height lies in the first part, or in what is left after it
  fun_induction cuts extra first last with
  | case1 first hempty => omega
  | case2 first hne stop ih =>
    by_cases hstop : h ≤ stop
    · exact ⟨(first, stop), List.mem_cons_self, hfirst, hstop⟩
    · obtain ⟨c, hc, hle⟩ := ih (by omega)
      exact ⟨c, List.mem_cons_of_mem _ hc, hle⟩

theorem cuts_pairwise (extra first last : Nat) :
    (cuts extra first last).Pairwise fun c d => c.2 < d.1 := by
  fun_induction cuts extra first last with
  | case1 first h => exact List.Pairwise.nil
  | case2 first h stop ih =>
    refine List.pairwise_cons.2 ⟨fun d hd => ?_, ih⟩
    exact (mem_cuts hd).1

/-- A part that `split` makes comes from a pair of numbers that fit. -/
theorem of_mem_split {r part : HeightRange} {page : UInt64} (h : part ∈ r.split page) :
    ∃ c ∈ cuts (page.toNat - 1) r.first.toNat r.last.toNat,
      part = { r with first := UInt64.ofNat c.1, last := UInt64.ofNat c.2 } ∧
      part.first.toNat = c.1 ∧ part.last.toNat = c.2 := by
  obtain ⟨c, hc, rfl⟩ := List.mem_map.1 h
  obtain ⟨-, hcc, hlast⟩ := mem_cuts hc
  have hlt := r.last.toNat_lt
  exact ⟨c, hc, rfl, UInt64.toNat_ofNat_of_lt' (by show _ < 2 ^ 64; omega),
    UInt64.toNat_ofNat_of_lt' (by show _ < 2 ^ 64; omega)⟩

theorem mem_split {r part : HeightRange} {page : UInt64} (h : part ∈ r.split page) :
    r.first ≤ part.first ∧ part.first ≤ part.last ∧ part.last ≤ r.last := by
  obtain ⟨c, hc, -, hfirst, hlast⟩ := of_mem_split h
  have hle := mem_cuts hc
  simp only [UInt64.le_iff_toNat_le, hfirst, hlast]
  exact hle

theorem holds_of_mem_split {r part : HeightRange} {page : UInt64} (hpart : part ∈ r.split page)
    {h : Height} (hh : part.Holds h) : r.Holds h := by
  obtain ⟨hfirst, -, hlast⟩ := mem_split hpart
  exact ⟨UInt64.le_trans hfirst hh.1, UInt64.le_trans hh.2 hlast⟩

/-- **No height of a range is left out.** -/
theorem exists_mem_split {r : HeightRange} {h : Height} (hh : r.Holds h) (page : UInt64) :
    ∃ part ∈ r.split page, part.Holds h := by
  obtain ⟨c, hc, hle⟩ := exists_mem_cuts (page.toNat - 1)
    (UInt64.le_iff_toNat_le.1 hh.1) (UInt64.le_iff_toNat_le.1 hh.2)
  obtain ⟨-, hcc, hlast⟩ := mem_cuts hc
  have hlt := r.last.toNat_lt
  refine ⟨_, List.mem_map.2 ⟨c, hc, rfl⟩, ?_⟩
  simp only [Holds, UInt64.le_iff_toNat_le]
  rw [UInt64.toNat_ofNat_of_lt' (by show _ < 2 ^ 64; omega),
    UInt64.toNat_ofNat_of_lt' (by show _ < 2 ^ 64; omega)]
  exact hle

/-- A part ends before the next one begins. -/
theorem split_pairwise (r : HeightRange) (page : UInt64) :
    (r.split page).Pairwise fun a b => a.last < b.first := by
  refine List.pairwise_map.2 ((cuts_pairwise _ _ _).imp_of_mem fun {c d} hc hd hlt => ?_)
  obtain ⟨-, hcc, hclast⟩ := mem_cuts hc
  obtain ⟨-, hdd, hdlast⟩ := mem_cuts hd
  have := r.last.toNat_lt
  rw [UInt64.lt_iff_toNat_lt, UInt64.toNat_ofNat_of_lt' (by show _ < 2 ^ 64; omega),
    UInt64.toNat_ofNat_of_lt' (by show _ < 2 ^ 64; omega)]
  exact hlt

/-- Of ranges that follow one another, at most one holds a height. -/
theorem countP_holds {parts : List HeightRange}
    (hparts : parts.Pairwise fun a b => a.last < b.first) {h : Height}
    (hh : ∃ part ∈ parts, part.Holds h) : parts.countP (fun part => part.Holds h) = 1 := by
  induction parts with
  | nil =>
    obtain ⟨part, hpart, -⟩ := hh
    exact absurd hpart List.not_mem_nil
  | cons first rest ih =>
    obtain ⟨hfirst, hrest⟩ := List.pairwise_cons.1 hparts
    obtain ⟨part, hpart, hin⟩ := hh
    by_cases hholds : first.Holds h
    · have hnone : rest.countP (fun part => part.Holds h) = 0 := by
        rw [List.countP_eq_zero]
        intro other hother hother'
        have hbefore := UInt64.lt_of_le_of_lt hholds.2 (hfirst other hother)
        exact UInt64.not_lt.2 (of_decide_eq_true hother').1 hbefore
      rw [List.countP_cons, hnone, if_pos (decide_eq_true hholds)]
    · rw [List.countP_cons, if_neg (by simpa using hholds), Nat.add_zero]
      rcases List.mem_cons.1 hpart with rfl | hpart
      · exact absurd hin hholds
      · exact ih hrest ⟨part, hpart, hin⟩

/-- **A height of a range lies in one part of it.** -/
theorem countP_split {r : HeightRange} {h : Height} (hh : r.Holds h) (page : UInt64) :
    (r.split page).countP (fun part => part.Holds h) = 1 :=
  countP_holds (split_pairwise r page) (exists_mem_split hh page)

end HeightRange

end ChainIndex
