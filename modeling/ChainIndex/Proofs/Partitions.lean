import ChainIndex.Delivery.Range
import ChainIndex.Proofs.Heights

/-!
# The parts of a range make up the range

A range is taken apart page by page: a part ends a page further on, or where the range ends, and the next
part begins at the number after that. Numbers are words, and a range may end at the greatest of them, so
the sum may be too large and there may be no number after (`Walk`).

* `walk_iff`: **the walk ends**, it never asks for a number that does not exist, and its parts are those
  of `split`.
* `Partition`: parts without gap or overlap; `Partition.flatMap`: parts of parts, and
  `Partition.heights_eq`: the heights of the parts are those of the range, each once.
* `split_partitions`: **`split` makes a partition into full pages and a last one**, and to split these
  parts again makes a finer one.
-/

namespace ChainIndex

namespace HeightRange

/-- The number of heights in a range. -/
def size (r : HeightRange) : Nat :=
  r.last.toNat + 1 - r.first.toNat

/-- The heights of a range in their order. -/
def heights (r : HeightRange) : List Nat :=
  List.range' r.first.toNat r.size

/-! ## Page by page -/

/-- The sum of two numbers, or the greatest number if it is too large. -/
def addSaturating (a b : UInt64) : UInt64 :=
  UInt64.ofNat (min (a.toNat + b.toNat) (UInt64.size - 1))

/-- The number after another one, if there is one. -/
def next? (a : Height) : Option Height :=
  if a.toNat + 1 < UInt64.size then some (a + 1) else none

/-- Where the first part of a range ends. -/
def stop (r : HeightRange) (page : UInt64) : Height :=
  min (addSaturating r.first (max page 1 - 1)) r.last

/-- The parts of a range, found one after the other. What is left of the range begins after the part that
was found last. -/
inductive Walk (page : UInt64) : HeightRange → List HeightRange → Prop where
  | last {r : HeightRange} (hstop : r.stop page = r.last) : Walk page r [{ r with last := r.stop page }]
  | more {r : HeightRange} {next : Height} {rest : List HeightRange} (hstop : r.stop page ≠ r.last)
      (hnext : next? (r.stop page) = some next) (hrest : Walk page { r with first := next } rest) :
      Walk page r ({ r with last := r.stop page } :: rest)

/-- Ranges that make up a range of the same chain: none is empty, and each begins right after the one
before it. -/
inductive Partition : HeightRange → List HeightRange → Prop where
  | last {r : HeightRange} (hle : r.first ≤ r.last) : Partition r [r]
  | cons {r : HeightRange} {stop next : Height} {rest : List HeightRange} (hle : r.first ≤ stop)
      (hnext : next.toNat = stop.toNat + 1) (hrest : Partition { r with first := next } rest) :
      Partition r ({ r with last := stop } :: rest)

/-- The parts that are asked for of a range, page after page. -/
def partsBy (r : HeightRange) (page : UInt64) : List HeightRange :=
  (r.split page).flatMap fun big => big.split RangeFetcher.partSize

variable {r : HeightRange} {page : UInt64} {parts : List HeightRange}

theorem stop_toNat (r : HeightRange) (page : UInt64) :
    (r.stop page).toNat = min (r.first.toNat + (page.toNat - 1)) r.last.toNat := by
  have hpage : (max page 1 - 1).toNat = page.toNat - 1 := by
    have hone : (1 : UInt64) ≤ max page 1 := by
      rw [UInt64.le_iff_toNat_le, UInt64.toNat_max]
      exact Nat.le_max_right _ _
    rw [UInt64.toNat_sub_of_le _ _ hone, UInt64.toNat_max]
    show max page.toNat 1 - 1 = page.toNat - 1
    omega
  have hlast : r.last.toNat < UInt64.size := r.last.toNat_lt
  rw [stop, UInt64.toNat_min, addSaturating, UInt64.toNat_ofNat_of_lt' (by omega), hpage]
  omega

theorem next?_eq_some {a next : Height} : next? a = some next ↔ next.toNat = a.toNat + 1 := by
  have hlt : next.toNat < UInt64.size := next.toNat_lt
  rw [next?]
  split
  · rename_i hfits
    have hsucc : (a + 1).toNat = a.toNat + 1 := by
      rw [UInt64.toNat_add]
      exact Nat.mod_eq_of_lt hfits
    rw [Option.some_inj, ← UInt64.toNat_inj, hsucc, eq_comm]
  · rename_i hfull
    exact iff_of_false nofun (by omega)

/-- There is a height after a part that does not end where the range ends. -/
theorem next_stop (hle : r.first ≤ r.last) (hstop : r.stop page ≠ r.last) :
    ∃ next, next? (r.stop page) = some next ∧ next ≤ r.last ∧ r.first < next := by
  rw [UInt64.le_iff_toNat_le] at hle
  rw [Ne, ← UInt64.toNat_inj] at hstop
  have hlast : r.last.toNat < UInt64.size := r.last.toNat_lt
  have hval := r.stop_toNat page
  have hnext : (UInt64.ofNat ((r.stop page).toNat + 1)).toNat = (r.stop page).toNat + 1 :=
    UInt64.toNat_ofNat_of_lt' (by omega)
  refine ⟨UInt64.ofNat ((r.stop page).toNat + 1), next?_eq_some.2 hnext, ?_, ?_⟩
  · rw [UInt64.le_iff_toNat_le]
    omega
  · rw [UInt64.lt_iff_toNat_lt]
    omega

/-- What is left after the first part is split like the whole. -/
theorem split_of_le (hle : r.first ≤ r.last) :
    r.split page = if r.stop page = r.last then [{ r with last := r.stop page }]
      else { r with last := r.stop page } ::
        { r with first := UInt64.ofNat ((r.stop page).toNat + 1) }.split page := by
  rw [UInt64.le_iff_toNat_le] at hle
  have hlast : r.last.toNat < UInt64.size := r.last.toNat_lt
  have hval := r.stop_toNat page
  rw [split, cuts, if_neg (by omega), ← hval, List.map_cons]
  simp only [UInt64.ofNat_toNat]
  split
  · rename_i hstop
    rw [hstop, cuts, if_pos (by omega)]
    rfl
  · rename_i hstop
    rw [← UInt64.toNat_inj] at hstop
    have hnext : (UInt64.ofNat ((r.stop page).toNat + 1)).toNat = (r.stop page).toNat + 1 :=
      UInt64.toNat_ofNat_of_lt' (by omega)
    rw [split, hnext]

theorem walk_split (hle : r.first ≤ r.last) : Walk page r (r.split page) := by
  -- the less is left of the range, the shorter the walk
  induction hleft : r.size using Nat.strongRecOn generalizing r with
  | _ left ih =>
    rw [split_of_le hle]
    split
    · rename_i hstop
      exact .last hstop
    · rename_i hstop
      obtain ⟨next, hnext, hnextLast, hfirstNext⟩ := next_stop hle hstop
      have hword : next = UInt64.ofNat ((r.stop page).toNat + 1) := by
        rw [← next?_eq_some.1 hnext, UInt64.ofNat_toNat]
      have hshorter : ({ r with first := next } : HeightRange).size < left := by
        rw [UInt64.lt_iff_toNat_lt] at hfirstNext
        rw [UInt64.le_iff_toNat_le] at hnextLast
        simp only [size] at hleft ⊢
        omega
      rw [← hword]
      exact .more hstop hnext (ih _ hshorter hnextLast rfl)

theorem Walk.unique {others : List HeightRange} (h : Walk page r parts) (h' : Walk page r others) :
    others = parts := by
  induction h generalizing others with
  | last hstop =>
    cases h' with
    | last _ => rfl
    | more hstop' _ _ => exact absurd hstop hstop'
  | more hstop hnext _ ih =>
    cases h' with
    | last hstop' => exact absurd hstop' hstop
    | more _ hnext' hrest' =>
      cases hnext.symm.trans hnext'
      rw [ih hrest']

/-- **The walk ends, and `split` gives its parts.** -/
theorem walk_iff (hle : r.first ≤ r.last) : Walk page r parts ↔ parts = r.split page := by
  constructor
  · exact (walk_split hle).unique
  · rintro rfl
    exact walk_split hle

theorem split_inverted (h : r.last < r.first) (page : UInt64) : r.split page = [] := by
  rw [UInt64.lt_iff_toNat_lt] at h
  rw [split, cuts, if_pos h]
  rfl

/-! ## Partitions -/

theorem Partition.first_le_last (h : r.Partition parts) : r.first ≤ r.last := by
  induction h with
  | last hle => exact hle
  | cons hle hnext _ ih =>
    simp only [UInt64.le_iff_toNat_le] at hle ih ⊢
    omega

theorem Partition.of_mem (h : r.Partition parts) : ∀ part ∈ parts,
    part.chainId = r.chainId ∧ part.network = r.network ∧ part.first ≤ part.last := by
  induction h with
  | last hle => exact List.forall_mem_singleton.2 ⟨rfl, rfl, hle⟩
  | cons hle _ _ ih => exact List.forall_mem_cons.2 ⟨⟨rfl, rfl, hle⟩, ih⟩

/-- The heights of the parts are those of the range, in their order and each once. -/
theorem Partition.heights_eq (h : r.Partition parts) : parts.flatMap HeightRange.heights = r.heights := by
  induction h with
  | last _ => exact List.append_nil _
  | @cons r stop next rest hle hnext hrest ih =>
    have hlast := hrest.first_le_last
    simp only [UInt64.le_iff_toNat_le] at hle hlast
    -- the next part begins where the list of the heights before it ends
    have hbegin : next.toNat = r.first.toNat + (stop.toNat + 1 - r.first.toNat) := by omega
    have hsize : r.size = stop.toNat + 1 - r.first.toNat + (r.last.toNat + 1 - next.toNat) := by
      rw [size]
      omega
    rw [List.flatMap_cons, ih, HeightRange.heights.eq_def r, hsize, ← List.range'_append_1, ← hbegin]
    rfl

/-- A partition of what ends before a height goes on with one of what begins there. -/
theorem Partition.append {before : HeightRange} {next : Height} {rest : List HeightRange}
    (h : before.Partition parts) (hnext : next.toNat = before.last.toNat + 1)
    (hrest : Partition { r with first := next } rest) (hchain : before = { r with last := before.last }) :
    r.Partition (parts ++ rest) := by
  induction h generalizing r with
  | last hle =>
    rw [hchain] at hle ⊢
    exact .cons hle hnext hrest
  | @cons before stop next' rest' hle hnext' _ ih =>
    have htail : Partition { r with first := next' } (rest' ++ rest) :=
      ih hnext hrest (congrArg (fun p : HeightRange => { p with first := next' }) hchain)
    rw [hchain] at hle ⊢
    exact .cons hle hnext' htail

/-- **Partitions of the parts are a partition of the range.** -/
theorem Partition.flatMap {f : HeightRange → List HeightRange} (h : r.Partition parts)
    (hf : ∀ part ∈ parts, part.Partition (f part)) : r.Partition (parts.flatMap f) := by
  induction h with
  | last _ =>
    rw [List.flatMap_singleton]
    exact hf _ (List.mem_singleton_self _)
  | cons _ hnext _ ih =>
    obtain ⟨hfirst, hrest⟩ := List.forall_mem_cons.1 hf
    rw [List.flatMap_cons]
    exact hfirst.append hnext (ih hrest) rfl

theorem Walk.partition (h : Walk page r parts) (hle : r.first ≤ r.last) : r.Partition parts := by
  induction h with
  | last hstop =>
    rw [hstop]
    exact .last hle
  | @more r next rest hstop hnext _ ih =>
    obtain ⟨next', hnext', hlast, -⟩ := next_stop hle hstop
    cases hnext.symm.trans hnext'
    refine .cons ?_ (next?_eq_some.1 hnext) (ih hlast)
    have hval := r.stop_toNat page
    rw [UInt64.le_iff_toNat_le] at hle ⊢
    omega

theorem split_partition (hle : r.first ≤ r.last) (page : UInt64) : r.Partition (r.split page) :=
  (walk_split hle).partition hle

/-- All parts are full pages but the last one, which is not larger. -/
structure Paged (page : Nat) (parts : List HeightRange) (front : List HeightRange)
    (final : HeightRange) : Prop where
  parts_eq : parts = front ++ [final]
  full : ∀ part ∈ front, part.size = page
  pos : 1 ≤ final.size
  le : final.size ≤ page

/-- A part that does not end where the range ends is a whole page. -/
theorem size_stop (hle : r.first ≤ r.last) (hstop : r.stop page ≠ r.last) :
    ({ r with last := r.stop page } : HeightRange).size = max page.toNat 1 := by
  have hval := r.stop_toNat page
  rw [UInt64.le_iff_toNat_le] at hle
  rw [Ne, ← UInt64.toNat_inj] at hstop
  simp only [size]
  omega

theorem Walk.paged (h : Walk page r parts) (hle : r.first ≤ r.last) :
    ∃ front final, Paged (max page.toNat 1) parts front final := by
  induction h with
  | @last r hstop =>
    have hval := r.stop_toNat page
    rw [UInt64.le_iff_toNat_le] at hle
    rw [← UInt64.toNat_inj] at hstop
    refine ⟨[], _, rfl, fun _ hpart => absurd hpart List.not_mem_nil, ?_, ?_⟩
    · simp only [size]
      omega
    · simp only [size]
      omega
  | @more r next rest hstop hnext _ ih =>
    obtain ⟨next', hnext', hlast, -⟩ := next_stop hle hstop
    cases hnext.symm.trans hnext'
    obtain ⟨front, final, rfl, hfull, hpos, hsize⟩ := ih hlast
    exact ⟨_ :: front, final, rfl, List.forall_mem_cons.2 ⟨size_stop hle hstop, hfull⟩, hpos, hsize⟩

theorem Walk.size_eq (h : Walk page r parts) (hle : r.first ≤ r.last) :
    ∀ part ∈ parts, part.last ≠ r.last → part.size = max page.toNat 1 := by
  induction h with
  | last hstop => exact List.forall_mem_singleton.2 fun hne => absurd hstop hne
  | more hstop hnext _ ih =>
    obtain ⟨next', hnext', hlast, -⟩ := next_stop hle hstop
    cases hnext.symm.trans hnext'
    exact List.forall_mem_cons.2 ⟨fun _ => size_stop hle hstop, ih hlast⟩

theorem size_le_of_mem_split {part : HeightRange} (h : part ∈ r.split page) :
    part.size ≤ max page.toNat 1 := by
  by_cases hle : r.first ≤ r.last
  · have hwalk : Walk page r (r.split page) := walk_split hle
    obtain ⟨front, final, hparts, hfull, -, hsize⟩ := hwalk.paged hle
    rw [hparts] at h
    rcases List.mem_append.1 h with h | h
    · exact Nat.le_of_eq (hfull part h)
    · rwa [List.mem_singleton.1 h]
  · rw [split_inverted (UInt64.not_le.1 hle)] at h
    exact absurd h List.not_mem_nil

/-- A part is not larger than the range. -/
theorem size_le_size {part : HeightRange} (h : part ∈ r.split page) : part.size ≤ r.size := by
  obtain ⟨hfirst, -, hlast⟩ := mem_split h
  rw [UInt64.le_iff_toNat_le] at hfirst hlast
  simp only [size]
  omega

theorem partsBy_partition (hle : r.first ≤ r.last) (page : UInt64) : r.Partition (r.partsBy page) := by
  have hpages := split_partition hle page
  exact hpages.flatMap fun big hbig => split_partition (hpages.of_mem big hbig).2.2 _

/-- **`split` makes a partition.** Whatever the range and the page, up to the greatest number: an inverted
range has no parts. Otherwise the walk in words ends, with the parts of `split` and no others; these are a
partition of the range, of the same chain, into full pages and a last one that is not empty. What is asked
for of a range is a partition of it as well, into parts that are larger neither than a page nor than what
a node gives at once. -/
theorem split_partitions (r : HeightRange) (page : UInt64) :
    (r.last < r.first → r.split page = [] ∧ r.partsBy page = []) ∧
    (r.first ≤ r.last →
      (∀ parts, Walk page r parts ↔ parts = r.split page) ∧
      r.Partition (r.split page) ∧
      (∃ front final, Paged (max page.toNat 1) (r.split page) front final) ∧
      r.Partition (r.partsBy page)) ∧
    (∀ part ∈ r.partsBy page, part.size ≤ min 20 (max page.toNat 1)) ∧
    (∀ parts, r.Partition parts → parts.flatMap heights = r.heights ∧
      ∀ part ∈ parts, part.chainId = r.chainId ∧ part.network = r.network ∧ part.first ≤ part.last) := by
  refine ⟨fun hinverted => ?_, fun hle => ?_, fun part hpart => ?_, fun parts hparts => ?_⟩
  · rw [partsBy, split_inverted hinverted]
    exact ⟨rfl, rfl⟩
  · exact ⟨fun parts => walk_iff hle, split_partition hle page, (walk_split hle).paged hle,
      partsBy_partition hle page⟩
  · obtain ⟨big, hbig, hpart⟩ := List.mem_flatMap.1 hpart
    have hsmall : part.size ≤ 20 := size_le_of_mem_split hpart
    exact Nat.le_min.2 ⟨hsmall, Nat.le_trans (size_le_size hpart) (size_le_of_mem_split hbig)⟩
  · exact ⟨hparts.heights_eq, hparts.of_mem⟩

end HeightRange

end ChainIndex
