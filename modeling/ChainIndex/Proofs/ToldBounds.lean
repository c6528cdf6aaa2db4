import ChainIndex.Proofs.MergedBatches
import Mathlib.Data.List.DropRight
import Mathlib.Order.Bounds.Basic

/-!
# The bounds that a block set tells

A block set tells the lowest and the highest of its heights without going through its blocks again. A bound
of zero means that nothing was seen yet, but zero is also a height. The highest height does not mind. The
lowest one is forgotten with the block that comes after one at height zero, so what is told is the lowest
height since then.

* `greatest_extend`: the highest height is right after any blocks.
* `least_extend`: the lowest height is right for the blocks since the last one at height zero.
* `bounds_true_iff`: **both bounds are true unless height zero was forgotten**, after any batches
  (`zero_forgotten`).
-/

namespace ChainIndex.BlockSet

/-- The heights of some blocks. -/
def heightsOf (bs : List Block) : Set Height :=
  {height | ∃ b ∈ bs, b.height = height}

/-- The blocks that came after the last one at height zero. -/
def sinceZero (bs : List Block) : List Block :=
  bs.rtakeWhile fun b => b.height ≠ 0

/-- There was a block at height zero, but it was not the last one. -/
def Forgets (bs : List Block) : Prop :=
  (∃ b ∈ bs, b.height = 0) ∧ ∃ b, bs.getLast? = some b ∧ b.height ≠ 0

/-! ## One more block -/

theorem mem_heightsOf_concat {bs : List Block} {b : Block} {height : Height} :
    height ∈ heightsOf (bs ++ [b]) ↔ height ∈ heightsOf bs ∨ height = b.height := by
  constructor
  · rintro ⟨x, hx, rfl⟩
    rcases List.mem_append.1 hx with hx | hx
    · exact .inl ⟨x, hx, rfl⟩
    · exact .inr (by rw [List.mem_singleton.1 hx])
  · rintro (⟨x, hx, rfl⟩ | rfl)
    · exact ⟨x, List.mem_append_left _ hx, rfl⟩
    · exact ⟨b, List.mem_append_right _ (List.mem_singleton_self b), rfl⟩

theorem extend_concat (s : BlockSet) (bs : List Block) (b : Block) :
    s.extend (bs ++ [b]) = (s.extend bs).insert b :=
  s.extend_append bs [b]

theorem highest_insert (s : BlockSet) (b : Block) :
    (s.insert b).highest = if s.highest < b.height then b.height else s.highest := by
  show (if s.highest = 0 ∨ s.highest < b.height then b.height else s.highest) = _
  by_cases hzero : s.highest = 0
  · -- nothing is lower than zero, so a height that is not above it is zero as well
    rw [if_pos (.inl hzero), hzero]
    split
    · rfl
    · rename_i hle
      exact UInt64.le_zero_iff.1 (UInt64.not_lt.1 hle)
  · exact if_congr (or_iff_right hzero) rfl rfl

theorem lowest_insert (s : BlockSet) (b : Block) :
    (s.insert b).lowest = if s.lowest = 0 ∨ b.height < s.lowest then b.height else s.lowest :=
  rfl

theorem sinceZero_concat (bs : List Block) (b : Block) :
    sinceZero (bs ++ [b]) = if b.height ≠ 0 then sinceZero bs ++ [b] else [] := by
  unfold sinceZero
  rw [List.rtakeWhile_concat]
  exact if_congr decide_eq_true_iff rfl rfl

theorem height_ne_zero {bs : List Block} {b : Block} (h : b ∈ sinceZero bs) : b.height ≠ 0 := by
  unfold sinceZero at h
  simpa using List.mem_rtakeWhile_imp h

/-! ## Any blocks -/

/-- **The highest height is right**, whatever was added. -/
theorem greatest_extend (bs : List Block) :
    (({} : BlockSet).extend bs).highest ∈ upperBounds (heightsOf bs) ∧
      (bs ≠ [] → (({} : BlockSet).extend bs).highest ∈ heightsOf bs) := by
  induction bs using List.reverseRecOn with
  | nil => exact ⟨fun _ ⟨_, hb, _⟩ => absurd hb List.not_mem_nil, fun h => absurd rfl h⟩
  | append_singleton bs b ih =>
    obtain ⟨hle, hmem⟩ := ih
    rw [extend_concat, highest_insert]
    split
    · rename_i hlt
      refine ⟨fun height hheight => ?_, fun _ => mem_heightsOf_concat.2 (.inr rfl)⟩
      rcases mem_heightsOf_concat.1 hheight with hheight | rfl
      · exact UInt64.le_trans (hle hheight) (UInt64.le_of_lt hlt)
      · exact UInt64.le_refl _
    · rename_i hlt
      have hge : b.height ≤ (({} : BlockSet).extend bs).highest := UInt64.not_lt.1 hlt
      refine ⟨fun height hheight => ?_, fun _ => mem_heightsOf_concat.2 ?_⟩
      · rcases mem_heightsOf_concat.1 hheight with hheight | rfl
        · exact hle hheight
        · exact hge
      · by_cases hempty : bs = []
        · -- the first height is not above zero
          subst hempty
          exact .inr (UInt64.le_zero_iff.1 hge).symm
        · exact .inl (hmem hempty)

/-- **The lowest height is right for the blocks since the last one at height zero.** -/
theorem least_extend (bs : List Block) :
    (sinceZero bs = [] → (({} : BlockSet).extend bs).lowest = 0) ∧
      (sinceZero bs ≠ [] →
        IsLeast (heightsOf (sinceZero bs)) (({} : BlockSet).extend bs).lowest) := by
  induction bs using List.reverseRecOn with
  | nil => exact ⟨fun _ => rfl, fun h => absurd rfl h⟩
  | append_singleton bs b ih =>
    obtain ⟨hnone, hleast⟩ := ih
    rw [extend_concat, lowest_insert, sinceZero_concat]
    by_cases hb : b.height = 0
    · -- with height zero everything before it is forgotten
      rw [if_neg (not_not_intro hb), hb]
      refine ⟨fun _ => ?_, fun h => absurd rfl h⟩
      split
      · rfl
      · rename_i hkeep
        exact absurd (UInt64.pos_iff_ne_zero.2 fun h => hkeep (.inl h)) fun h => hkeep (.inr h)
    · rw [if_pos hb]
      refine ⟨fun h => absurd h (List.append_ne_nil_of_right_ne_nil _ (List.cons_ne_nil _ _)), fun _ => ?_⟩
      by_cases hempty : sinceZero bs = []
      · rw [if_pos (.inl (hnone hempty)), hempty]
        refine ⟨⟨b, List.mem_singleton_self b, rfl⟩, ?_⟩
        rintro height ⟨x, hx, rfl⟩
        rw [List.mem_singleton.1 hx]
        exact UInt64.le_refl _
      · obtain ⟨hmem, hle⟩ := hleast hempty
        have hlow : (({} : BlockSet).extend bs).lowest ≠ 0 := by
          obtain ⟨x, hx, hheight⟩ := hmem
          exact hheight ▸ height_ne_zero hx
        rw [if_congr (or_iff_right hlow) rfl rfl]
        split
        · rename_i hlt
          refine ⟨mem_heightsOf_concat.2 (.inr rfl), fun height hheight => ?_⟩
          rcases mem_heightsOf_concat.1 hheight with hheight | rfl
          · exact UInt64.le_trans (UInt64.le_of_lt hlt) (hle hheight)
          · exact UInt64.le_refl _
        · rename_i hlt
          refine ⟨mem_heightsOf_concat.2 (.inl hmem), fun height hheight => ?_⟩
          rcases mem_heightsOf_concat.1 hheight with hheight | rfl
          · exact hle hheight
          · exact UInt64.not_lt.1 hlt

/-- A set has the heights that were added. -/
theorem heightsOf_extend (bs : List Block) :
    heightsOf (({} : BlockSet).extend bs).blocks = heightsOf bs := by
  ext height
  constructor
  · rintro ⟨b, hb, rfl⟩
    exact ⟨b, (mem_of_mem_extend _ hb).resolve_left List.not_mem_nil, rfl⟩
  · rintro ⟨b, hb, rfl⟩
    exact exists_mem_extend {} hb

/-! ## What is told of the blocks that are kept -/

theorem sinceZero_eq_nil_iff {bs : List Block} :
    sinceZero bs = [] ↔ ∀ b, bs.getLast? = some b → b.height = 0 := by
  rcases List.eq_nil_or_concat' bs with rfl | ⟨bs, b, rfl⟩
  · exact iff_of_true rfl fun b hb => absurd hb.symm (Option.some_ne_none b)
  · rw [sinceZero_concat]
    by_cases hb : b.height = 0 <;> simp [hb]

theorem forgets_iff {bs : List Block} : Forgets bs ↔ 0 ∈ heightsOf bs ∧ sinceZero bs ≠ [] := by
  refine and_congr_right' ?_
  rw [Ne, sinceZero_eq_nil_iff, not_forall]
  exact exists_congr fun b => Classical.not_imp.symm

theorem sinceZero_eq_self {bs : List Block} (h : 0 ∉ heightsOf bs) : sinceZero bs = bs := by
  refine List.rtakeWhile_eq_self_iff.2 fun b hb => decide_eq_true fun hzero => h ⟨b, hb, hzero⟩

/-- **Both bounds are true unless height zero was forgotten.** After any batches the highest height that is
told is that of the blocks that are kept, and both bounds are zero if there are none. The lowest height is
that of the blocks that are kept as well, unless a block at height zero came and was not the last one: then
it is the lowest of the heights that came since. -/
theorem bounds_true_iff (batches : List (List Block)) :
    let s := ofBatches batches
    let added := batches.flatten
    (s.blocks = [] → s.lowest = 0 ∧ s.highest = 0) ∧
      (s.blocks ≠ [] → IsGreatest (heightsOf s.blocks) s.highest ∧
        (IsLeast (heightsOf s.blocks) s.lowest ↔ ¬Forgets added)) ∧
      (Forgets added → IsLeast (heightsOf (sinceZero added)) s.lowest) := by
  intro s added
  have hs : s = ({} : BlockSet).extend added := ofBatches_eq batches
  have hheights : heightsOf s.blocks = heightsOf added := hs ▸ heightsOf_extend added
  obtain ⟨hupper, hhighest⟩ := greatest_extend added
  obtain ⟨hnone, hleast⟩ := least_extend added
  rw [← hs] at hupper hhighest hnone hleast
  refine ⟨fun hempty => ?_, fun hne => ?_, fun hforgets => hleast (forgets_iff.1 hforgets).2⟩
  · have hadded : added = [] := by
      by_contra hne
      obtain ⟨b, hb, -⟩ := hheights ▸ hhighest hne
      rw [hempty] at hb
      exact List.not_mem_nil hb
    rw [hs, hadded]
    exact ⟨rfl, rfl⟩
  · have hadded : added ≠ [] := fun hnil => hne (by rw [hs, hnil]; rfl)
    rw [hheights, forgets_iff]
    refine ⟨⟨hhighest hadded, hupper⟩, fun htrue hforgets => ?_, fun hkept => ?_⟩
    · -- nothing is lower than height zero, but the lowest height since then is told
      obtain ⟨hzero, hrecent⟩ := hforgets
      obtain ⟨b, hb, hheight⟩ := (hleast hrecent).1
      exact height_ne_zero hb (hheight.trans (UInt64.le_zero_iff.1 (htrue.2 hzero)))
    · by_cases hzero : 0 ∈ heightsOf added
      · have hlowest := hnone (not_not.1 fun hrecent => hkept ⟨hzero, hrecent⟩)
        rw [hlowest]
        exact ⟨hzero, fun _ _ => UInt64.zero_le⟩
      · have hself := sinceZero_eq_self hzero
        rw [hself] at hleast
        exact hleast hadded

/-- **Height zero is forgotten**: of the blocks at the heights 0 and 5, added in this order, both are kept,
and 5 is told as the lowest height. -/
theorem zero_forgotten :
    let s := ofBatches [[{ height := 0 }, { height := 5 }]]
    s.blocks = [{ height := 0 }, { height := 5 }] ∧ s.lowest = 5 ∧ s.highest = 5 ∧
      ¬IsLeast (heightsOf s.blocks) s.lowest := by
  refine ⟨rfl, rfl, rfl, fun h => ?_⟩
  have hle := h.2 ⟨{ height := 0 }, List.mem_cons_self, rfl⟩
  exact absurd hle (by decide)

end ChainIndex.BlockSet
