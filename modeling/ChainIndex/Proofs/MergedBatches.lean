import ChainIndex.Proofs.BlockSets
import Mathlib.Algebra.GroupWithZero.Nat
import Mathlib.Algebra.Order.BigOperators.Group.List
import Mathlib.Algebra.Order.Group.Nat
import Mathlib.Data.List.Infix
import Mathlib.Data.List.Perm.Basic

/-!
# Batches of blocks, in any order

The replies for the parts of a range come in one after the other and are merged as they come. Of each
height the block that came last is kept (`get?_extend`), and the number of transactions is adjusted with
every block rather than counted again.

* `counted_extend`: still it is always the number of transactions of the blocks that are kept.
* `Fits.step`: nothing wraps around on the way, as long as that number fits into 64 bits.
* `merged_batches`: **the result is exact, and batches that agree may be merged in any order**.
-/

namespace ChainIndex.BlockSet

/-! ## The block that came last -/

/-- The last of some blocks with a height. -/
def latest? (bs : List Block) (height : Height) : Option Block :=
  bs.reverse.find? (·.height == height)

theorem latest?_append (as bs : List Block) (height : Height) :
    latest? (as ++ bs) height = (latest? bs height).or (latest? as height) := by
  rw [latest?, List.reverse_append, List.find?_append]
  rfl

theorem latest?_singleton (b : Block) (height : Height) :
    latest? [b] height = if b.height = height then some b else none := by
  by_cases h : b.height = height
  · simp [latest?, h]
  · simp [latest?, h]

theorem height_of_latest? {bs : List Block} {height : Height} {b : Block}
    (h : latest? bs height = some b) : b ∈ bs ∧ b.height = height :=
  ⟨List.mem_reverse.1 (List.mem_of_find?_eq_some h), by simpa using List.find?_some h⟩

/-- A set gives a block just if it has it under its own height. -/
theorem get?_eq_some_iff {s : BlockSet} (h : Ordered s.blocks) {height : Height} {b : Block} :
    s.get? height = some b ↔ b ∈ s.blocks ∧ b.height = height := by
  constructor
  · intro hget
    exact ⟨List.mem_of_find?_eq_some hget, by simpa using List.find?_some hget⟩
  · rintro ⟨hb, rfl⟩
    exact get?_of_mem h hb

theorem mem_place_iff {b x : Block} {bs : List Block} (h : Ordered bs) :
    x ∈ place b bs ↔ x = b ∨ x ∈ bs ∧ x.height ≠ b.height := by
  constructor
  · intro hx
    by_cases hheight : x.height = b.height
    · exact .inl ((place_ordered h).eq_of_height hx (self_mem_place b bs) hheight)
    · exact (mem_place hx).imp_right fun hmem => ⟨hmem, hheight⟩
  · rintro (rfl | ⟨hx, hne⟩)
    · exact self_mem_place x bs
    · exact mem_place_of_ne hx hne

theorem get?_insert {s : BlockSet} (h : Ordered s.blocks) (b : Block) (height : Height) :
    (s.insert b).get? height = if b.height = height then some b else s.get? height := by
  refine Option.ext fun x => ?_
  have hordered : Ordered (s.insert b).blocks := place_ordered h
  rw [get?_eq_some_iff hordered]
  show x ∈ place b s.blocks ∧ _ ↔ _
  rw [mem_place_iff h]
  by_cases hheight : b.height = height
  · subst hheight
    rw [if_pos rfl, Option.some_inj]
    constructor
    · rintro ⟨rfl | ⟨-, hne⟩, heq⟩
      · rfl
      · exact absurd heq hne
    · rintro rfl
      exact ⟨.inl rfl, rfl⟩
  · rw [if_neg hheight, get?_eq_some_iff h]
    constructor
    · rintro ⟨rfl | ⟨hx, -⟩, heq⟩
      · exact absurd heq hheight
      · exact ⟨hx, heq⟩
    · rintro ⟨hx, rfl⟩
      exact ⟨.inr ⟨hx, fun heq => hheight heq.symm⟩, rfl⟩

/-- **Of each height the block that came last is kept.** -/
theorem get?_extend {bs : List Block} {s : BlockSet} (h : Ordered s.blocks) (height : Height) :
    (s.extend bs).get? height = (latest? bs height).or (s.get? height) := by
  induction bs generalizing s with
  | nil => rfl
  | cons b bs ih =>
    have hsplit : latest? (b :: bs) height = (latest? bs height).or (latest? [b] height) :=
      latest?_append [b] bs height
    rw [hsplit, latest?_singleton, Option.or_assoc]
    have hrest := ih (s := s.insert b) (place_ordered h)
    rw [get?_insert h] at hrest
    refine hrest.trans ?_
    split <;> rfl

/-! ## The number of transactions -/

/-- How many transactions some blocks have together. -/
def transactionsIn (bs : List Block) : Nat :=
  (bs.map fun b => b.transactionCount.toNat).sum

/-- The number of transactions that a block's height had so far. -/
def replaced (s : BlockSet) (b : Block) : UInt64 :=
  ((s.get? b.height).map Block.transactionCount).getD 0

theorem insert_count (s : BlockSet) (b : Block) :
    (s.insert b).transactionCount = s.transactionCount - s.replaced b + b.transactionCount :=
  rfl

/-- The blocks keep their transactions but those of the block that is replaced. -/
theorem transactionsIn_place {b : Block} {bs : List Block} (h : Ordered bs) :
    transactionsIn (place b bs) +
        (((bs.find? (·.height == b.height)).map Block.transactionCount).getD 0).toNat =
      transactionsIn bs + b.transactionCount.toNat := by
  induction bs with
  | nil => simp [place, transactionsIn]
  | cons c bs ih =>
    obtain ⟨hc, hrest⟩ := List.pairwise_cons.1 h
    rw [place]
    by_cases hsame : b.height = c.height
    · -- the block takes the place of the first one
      have hfind : (c :: bs).find? (·.height == b.height) = some c :=
        List.find?_cons_of_pos (beq_iff_eq.2 hsame.symm)
      rw [if_pos hsame, hfind]
      simp only [transactionsIn, List.map_cons, List.sum_cons, Option.map_some, Option.getD_some]
      omega
    · have hskip : (c :: bs).find? (·.height == b.height) =
          bs.find? (·.height == b.height) :=
        List.find?_cons_of_neg (by simpa using fun heq => hsame heq.symm)
      rw [if_neg hsame, hskip]
      by_cases hlt : b.height < c.height
      · -- the heights after it are higher, so none of them is replaced
        have hnone : bs.find? (·.height == b.height) = none := by
          rw [List.find?_eq_none]
          intro x hx heq
          have habove := UInt64.lt_trans hlt (hc x hx)
          rw [eq_of_beq heq] at habove
          exact UInt64.lt_irrefl _ habove
        rw [if_pos hlt, hnone]
        simp only [transactionsIn, List.map_cons, List.sum_cons, Option.map_none, Option.getD_none]
        have hzero : (0 : UInt64).toNat = 0 := rfl
        omega
      · have hstep := ih hrest
        rw [if_neg hlt]
        simp only [transactionsIn, List.map_cons, List.sum_cons] at hstep ⊢
        omega

/-- What a block replaces is part of what is there. -/
theorem replaced_le {s : BlockSet} (h : Ordered s.blocks) (b : Block) :
    (s.replaced b).toNat ≤ transactionsIn s.blocks := by
  rw [replaced]
  cases hget : s.get? b.height with
  | none => exact Nat.zero_le _
  | some x =>
    have hx := ((get?_eq_some_iff h).1 hget).1
    exact List.le_sum_of_mem (List.mem_map.2 ⟨x, hx, rfl⟩)

/-- The running number is that of the blocks, up to whole turns of 64 bits. -/
def Counted (s : BlockSet) : Prop :=
  s.transactionCount = UInt64.ofNat (transactionsIn s.blocks)

theorem Counted.insert {s : BlockSet} (h : Ordered s.blocks) (hs : s.Counted) (b : Block) :
    (s.insert b).Counted := by
  -- counted without a bound, what is replaced is taken from a sum that it is part of
  have hplace := transactionsIn_place (b := b) h
  have hle := replaced_le h b
  have hblocks : (s.insert b).blocks = place b s.blocks := rfl
  have htotal : transactionsIn (place b s.blocks) =
      transactionsIn s.blocks - (s.replaced b).toNat + b.transactionCount.toNat := by
    rw [replaced, get?] at hle ⊢
    omega
  rw [Counted, insert_count, hs, hblocks, htotal, UInt64.ofNat_add, UInt64.ofNat_sub hle,
    UInt64.ofNat_toNat, UInt64.ofNat_toNat]

/-- **The running number follows the blocks that are kept.** -/
theorem Counted.extend {bs : List Block} {s : BlockSet} (h : Ordered s.blocks) (hs : s.Counted) :
    (s.extend bs).Counted := by
  induction bs generalizing s with
  | nil => exact hs
  | cons b bs ih => exact ih (place_ordered h) (hs.insert h b)

theorem ordered_empty : Ordered ({} : BlockSet).blocks :=
  List.Pairwise.nil

theorem counted_extend (bs : List Block) : (({} : BlockSet).extend bs).Counted :=
  Counted.extend ordered_empty rfl

/-- However many of some blocks are added, the transactions of those that are kept then can be counted in
64 bits. -/
def Fits (bs : List Block) : Prop :=
  ∀ before, before <+: bs → transactionsIn (({} : BlockSet).extend before).blocks < UInt64.size

theorem Fits.count {bs before : List Block} (h : Fits bs) (hbefore : before <+: bs) :
    (({} : BlockSet).extend before).transactionCount.toNat =
      transactionsIn (({} : BlockSet).extend before).blocks := by
  have hcounted := counted_extend before
  rw [Counted] at hcounted
  rw [hcounted, UInt64.toNat_ofNat_of_lt' (h before hbefore)]

/-- **Neither step of an adjustment wraps around**: what is replaced was counted before, and what is
added fits. -/
theorem Fits.step {bs before after : List Block} {b : Block} (h : Fits bs)
    (hsplit : bs = before ++ b :: after) :
    let s := ({} : BlockSet).extend before
    s.replaced b ≤ s.transactionCount ∧
      (s.transactionCount - s.replaced b).toNat + b.transactionCount.toNat < UInt64.size := by
  intro s
  have hordered : Ordered s.blocks := extend_ordered _ ordered_empty
  have hbefore : before <+: bs := ⟨b :: after, hsplit.symm⟩
  have hnext : before ++ [b] <+: bs := ⟨after, by rw [hsplit, List.append_assoc]; rfl⟩
  have hcount : s.transactionCount.toNat = transactionsIn s.blocks := h.count hbefore
  have hle : s.replaced b ≤ s.transactionCount := by
    rw [UInt64.le_iff_toNat_le, hcount]
    exact replaced_le hordered b
  refine ⟨hle, ?_⟩
  have hfits := h _ hnext
  have hinsert : (({} : BlockSet).extend (before ++ [b])).blocks = place b s.blocks := by
    rw [extend_append]
    rfl
  have hplace := transactionsIn_place (b := b) hordered
  rw [hinsert] at hfits
  rw [UInt64.toNat_sub_of_le _ _ hle, hcount]
  rw [UInt64.le_iff_toNat_le, hcount] at hle
  rw [replaced, get?] at hle ⊢
  omega

/-! ## Batches -/

/-- Batches that are merged one after the other. -/
def ofBatches (batches : List (List Block)) : BlockSet :=
  batches.foldl extend {}

theorem ofBatches_eq (batches : List (List Block)) :
    ofBatches batches = ({} : BlockSet).extend batches.flatten := by
  rw [ofBatches, extend, List.foldl_flatten]
  rfl

/-- Batches that end with the same block at a height, if they have one there. -/
def Agree (batches : List (List Block)) : Prop :=
  ∀ xs ∈ batches, ∀ ys ∈ batches, ∀ height x y,
    latest? xs height = some x → latest? ys height = some y → x = y

theorem exists_of_latest?_flatten {batches : List (List Block)} {height : Height} {b : Block}
    (h : latest? batches.flatten height = some b) :
    ∃ xs ∈ batches, latest? xs height = some b := by
  induction batches with
  | nil => cases h
  | cons xs batches ih =>
    rw [List.flatten_cons, latest?_append, Option.or_eq_some_iff] at h
    rcases h with h | ⟨-, h⟩
    · obtain ⟨ys, hys, hlatest⟩ := ih h
      exact ⟨ys, List.mem_cons_of_mem _ hys, hlatest⟩
    · exact ⟨xs, List.mem_cons_self, h⟩

theorem latest?_flatten_isSome {batches : List (List Block)} {height : Height} {xs : List Block}
    (hxs : xs ∈ batches) (h : (latest? xs height).isSome) :
    (latest? batches.flatten height).isSome := by
  induction batches with
  | nil => exact absurd hxs List.not_mem_nil
  | cons ys batches ih =>
    rw [List.flatten_cons, latest?_append, Option.isSome_or, Bool.or_eq_true]
    rcases List.mem_cons.1 hxs with rfl | hxs
    · exact .inr h
    · exact .inl (ih hxs)

/-- Of batches that agree, any one tells the block that is kept. -/
theorem Agree.latest?_flatten_iff {batches : List (List Block)} (h : Agree batches)
    {height : Height} {b : Block} :
    latest? batches.flatten height = some b ↔ ∃ xs ∈ batches, latest? xs height = some b := by
  refine ⟨exists_of_latest?_flatten, ?_⟩
  rintro ⟨xs, hxs, hb⟩
  have hsome : (latest? xs height).isSome := by
    rw [hb]
    rfl
  obtain ⟨x, hx⟩ := Option.isSome_iff_exists.1 (latest?_flatten_isSome hxs hsome)
  obtain ⟨ys, hys, hlatest⟩ := exists_of_latest?_flatten hx
  rw [hx, h ys hys xs hxs height x b hlatest hb]

theorem Agree.perm {batches others : List (List Block)} (h : Agree batches)
    (hperm : others.Perm batches) : Agree others :=
  fun xs hxs ys hys => h xs (hperm.mem_iff.1 hxs) ys (hperm.mem_iff.1 hys)

theorem ofBatches_ordered (batches : List (List Block)) : Ordered (ofBatches batches).blocks := by
  rw [ofBatches_eq]
  exact extend_ordered _ ordered_empty

theorem get?_ofBatches (batches : List (List Block)) (height : Height) :
    (ofBatches batches).get? height = latest? batches.flatten height := by
  rw [ofBatches_eq, get?_extend ordered_empty]
  exact Option.or_none

theorem mem_ofBatches {batches : List (List Block)} {b : Block} :
    b ∈ (ofBatches batches).blocks ↔ latest? batches.flatten b.height = some b := by
  rw [← get?_ofBatches, get?_eq_some_iff (ofBatches_ordered batches)]
  exact (and_iff_left rfl).symm

/-- **Batches that agree leave the same blocks**, in whichever order they are merged. -/
theorem Agree.blocks_eq {batches others : List (List Block)} (h : Agree batches)
    (hperm : others.Perm batches) : (ofBatches others).blocks = (ofBatches batches).blocks := by
  refine (ofBatches_ordered others).eq_of_mem_iff (ofBatches_ordered batches) fun b => ?_
  rw [mem_ofBatches, mem_ofBatches, (h.perm hperm).latest?_flatten_iff, h.latest?_flatten_iff]
  exact exists_congr fun xs => and_congr_left' hperm.mem_iff

theorem count_ofBatches (batches : List (List Block)) :
    (ofBatches batches).transactionCount =
      UInt64.ofNat (transactionsIn (ofBatches batches).blocks) := by
  rw [ofBatches_eq]
  exact counted_extend _

/-- Bounds are told by the blocks that were added. -/
theorem Bounds.unique {s t : BlockSet} {as bs : List Block} (hs : s.Bounds as) (ht : t.Bounds bs)
    (hmem : ∀ b, b ∈ as ↔ b ∈ bs) : s.lowest = t.lowest ∧ s.highest = t.highest := by
  by_cases hempty : as = []
  · have hother : bs = [] := by
      rw [List.eq_nil_iff_forall_not_mem]
      intro b hb
      rw [← hmem, hempty] at hb
      exact List.not_mem_nil hb
    obtain ⟨hlow, hhigh⟩ := hs.none hempty
    obtain ⟨hlow', hhigh'⟩ := ht.none hother
    exact ⟨hlow.trans hlow'.symm, hhigh.trans hhigh'.symm⟩
  · have hother : bs ≠ [] := by
      obtain ⟨b, hb⟩ := List.exists_mem_of_ne_nil as hempty
      exact List.ne_nil_of_mem ((hmem b).1 hb)
    -- a bound is the height of a block, which the other set has been given as well
    obtain ⟨a, ha, halow⟩ := hs.low hempty
    obtain ⟨b, hb, hblow⟩ := ht.low hother
    obtain ⟨c, hc, hchigh⟩ := hs.high hempty
    obtain ⟨d, hd, hdhigh⟩ := ht.high hother
    constructor
    · have hle := hs.lowest_le b ((hmem b).2 hb)
      have hge := ht.lowest_le a ((hmem a).1 ha)
      rw [hblow] at hle
      rw [halow] at hge
      exact UInt64.le_antisymm hle hge
    · have hle := ht.le_highest c ((hmem c).1 hc)
      have hge := hs.le_highest d ((hmem d).2 hd)
      rw [hchigh] at hle
      rw [hdhigh] at hge
      exact UInt64.le_antisymm hle hge

theorem bounds_ofBatches {batches : List (List Block)}
    (h : ∀ xs ∈ batches, ∀ b ∈ xs, b.height ≠ 0) :
    (ofBatches batches).Bounds batches.flatten := by
  rw [ofBatches_eq]
  have hpositive : ∀ b ∈ batches.flatten, b.height ≠ 0 := by
    intro b hb
    obtain ⟨xs, hxs, hmem⟩ := List.mem_flatten.1 hb
    exact h xs hxs b hmem
  exact bounds_empty.extend hpositive

/-- **Merged batches are exact.** Whatever the batches, as long as the transactions of the blocks that are
kept can be counted in 64 bits at each step: each height has the block that came last for it, the blocks
stand in the order of their heights and are all there is, and the number of transactions is theirs at
every step, without ever wrapping around. Batches that agree on the heights which they share lead to the
same blocks and the same number in any order, and to the same bounds if no height is zero. -/
theorem merged_batches (batches : List (List Block)) (hfits : Fits batches.flatten) :
    let s := ofBatches batches
    (∀ height, s.get? height = latest? batches.flatten height) ∧
      Ordered s.blocks ∧ (∀ b, b ∈ s.blocks ↔ s.get? b.height = some b) ∧
      s.transactionCount.toNat = transactionsIn s.blocks ∧
      (∀ before b after, batches.flatten = before ++ b :: after →
        let t := ({} : BlockSet).extend before
        t.transactionCount.toNat = transactionsIn t.blocks ∧
          t.replaced b ≤ t.transactionCount ∧
          (t.transactionCount - t.replaced b).toNat + b.transactionCount.toNat < UInt64.size) ∧
      (Agree batches → ∀ others, others.Perm batches →
        (ofBatches others).blocks = s.blocks ∧
          (ofBatches others).transactionCount = s.transactionCount ∧
          ((∀ xs ∈ batches, ∀ b ∈ xs, b.height ≠ 0) →
            (ofBatches others).lowest = s.lowest ∧ (ofBatches others).highest = s.highest)) := by
  intro s
  have hordered : Ordered s.blocks := ofBatches_ordered batches
  refine ⟨get?_ofBatches batches, hordered, fun b => ?_, ?_, fun before b after hsplit => ?_,
    fun hagree others hperm => ?_⟩
  · rw [get?_eq_some_iff hordered]
    exact (and_iff_left rfl).symm
  · show (ofBatches batches).transactionCount.toNat = _
    rw [ofBatches_eq]
    exact (hfits.count (List.prefix_refl _)).trans (by rw [← ofBatches_eq])
  · exact ⟨hfits.count ⟨b :: after, hsplit.symm⟩, hfits.step hsplit⟩
  · have hblocks := hagree.blocks_eq hperm
    refine ⟨hblocks, ?_, fun hpositive => ?_⟩
    · rw [count_ofBatches, hblocks]
      exact (count_ofBatches batches).symm
    · have hothers : ∀ xs ∈ others, ∀ b ∈ xs, b.height ≠ 0 :=
        fun xs hxs => hpositive xs (hperm.mem_iff.1 hxs)
      exact (bounds_ofBatches hothers).unique (bounds_ofBatches hpositive)
        fun b => hperm.flatten.mem_iff

/-- Two batches that share a height; the first one has two blocks for it, of which the last counts. -/
theorem merged_batches_two :
    let first : List Block := [{ height := 2, transactionCount := 7 },
      { height := 1, transactionCount := 2 }, { height := 2, transactionCount := 3 }]
    let second : List Block := [{ height := 5, transactionCount := 4 },
      { height := 2, transactionCount := 3 }]
    Fits [first, second].flatten ∧ Agree [first, second] ∧
      (∀ xs ∈ [first, second], ∀ b ∈ xs, b.height ≠ 0) ∧
      (ofBatches [first, second]).transactionCount.toNat = 9 ∧
      (ofBatches [second, first]).blocks = (ofBatches [first, second]).blocks ∧
      (ofBatches [second, first]).lowest = (ofBatches [first, second]).lowest := by
  intro first second
  have hfits : Fits [first, second].flatten := by
    intro before hbefore
    have hall : ∀ before ∈ [first, second].flatten.inits,
        transactionsIn (({} : BlockSet).extend before).blocks < UInt64.size := by decide
    exact hall before ((List.mem_inits _ _).2 hbefore)
  have hagree : Agree [first, second] := by
    intro xs hxs ys hys height x y hx hy
    have hall : ∀ xs ∈ [first, second], ∀ ys ∈ [first, second], ∀ x ∈ xs, ∀ y ∈ ys,
        latest? xs x.height = some x → latest? ys x.height = some y → x = y := by decide
    obtain ⟨hmem, rfl⟩ := height_of_latest? hx
    exact hall xs hxs ys hys x hmem y (height_of_latest? hy).1 hx hy
  have hpositive : ∀ xs ∈ [first, second], ∀ b ∈ xs, b.height ≠ 0 := by decide
  obtain ⟨-, -, -, hcount, -, hany⟩ := merged_batches [first, second] hfits
  obtain ⟨hblocks, -, hbounds⟩ := hany hagree [second, first] (.swap _ _ _)
  refine ⟨hfits, hagree, hpositive, hcount.trans (by decide), hblocks, (hbounds hpositive).1⟩

end ChainIndex.BlockSet
