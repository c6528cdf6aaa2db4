import ChainIndex.Delivery.Range
import Mathlib.Data.List.Basic

/-!
# Block sets hold one block per height

Blocks come in from several replies at the same time. Whatever their order, a set keeps them in the
order of their heights, one for each height (`extend_ordered`); its heights are those that were added
(`exists_mem_extend`), its blocks are among those that were added (`mem_of_mem_extend`), and it knows the
lowest and the highest of its heights (`Bounds.extend`).

The replies for the parts of a range are merged all or none: `merge_eq_ok`, `merge_eq_error`.
-/

namespace ChainIndex

namespace BlockSet

/-- Blocks in the order of their heights, at most one per height. -/
def Ordered (bs : List Block) : Prop :=
  bs.Pairwise fun a b => a.height < b.height

theorem mem_place {b x : Block} {bs : List Block} (h : x ∈ place b bs) : x = b ∨ x ∈ bs := by
  induction bs with
  | nil => exact .inl (List.mem_singleton.1 h)
  | cons c rest ih =>
    rw [place] at h
    split at h
    · rcases List.mem_cons.1 h with h | h
      · exact .inl h
      · exact .inr (List.mem_cons_of_mem _ h)
    · split at h
      · rcases List.mem_cons.1 h with h | h
        · exact .inl h
        · exact .inr h
      · rcases List.mem_cons.1 h with rfl | h
        · exact .inr List.mem_cons_self
        · rcases ih h with h | h
          · exact .inl h
          · exact .inr (List.mem_cons_of_mem _ h)

theorem self_mem_place (b : Block) (bs : List Block) : b ∈ place b bs := by
  induction bs with
  | nil => exact List.mem_singleton_self b
  | cons c rest ih =>
    rw [place]
    split
    · exact List.mem_cons_self
    · split
      · exact List.mem_cons_self
      · exact List.mem_cons_of_mem _ ih

/-- A block is only replaced by one of its height. -/
theorem mem_place_of_ne {b x : Block} {bs : List Block} (h : x ∈ bs) (hne : x.height ≠ b.height) :
    x ∈ place b bs := by
  induction bs with
  | nil => exact absurd h List.not_mem_nil
  | cons c rest ih =>
    rw [place]
    split
    · rename_i hc
      rcases List.mem_cons.1 h with rfl | h
      · exact absurd hc.symm hne
      · exact List.mem_cons_of_mem _ h
    · split
      · exact List.mem_cons_of_mem _ h
      · rcases List.mem_cons.1 h with rfl | h
        · exact List.mem_cons_self
        · exact List.mem_cons_of_mem _ (ih h)

theorem place_ordered {b : Block} {bs : List Block} (h : Ordered bs) : Ordered (place b bs) := by
  induction bs with
  | nil => exact List.pairwise_singleton _ b
  | cons c rest ih =>
    obtain ⟨hc, hrest⟩ := List.pairwise_cons.1 h
    rw [place]
    split
    · rename_i heq
      refine List.pairwise_cons.2 ⟨fun x hx => ?_, hrest⟩
      rw [heq]
      exact hc x hx
    -- the block comes before the first one, or after it
    · split
      · rename_i hlt
        refine List.pairwise_cons.2 ⟨fun x hx => ?_, h⟩
        rcases List.mem_cons.1 hx with rfl | hx
        · exact hlt
        · exact UInt64.lt_trans hlt (hc x hx)
      · rename_i hne hle
        refine List.pairwise_cons.2 ⟨fun x hx => ?_, ih hrest⟩
        rcases mem_place hx with rfl | hx
        · rcases UInt64.lt_or_lt_of_ne hne with hlt | hlt
          · exact absurd hlt hle
          · exact hlt
        · exact hc x hx

variable (s : BlockSet)

theorem extend_append (as bs : List Block) : s.extend (as ++ bs) = (s.extend as).extend bs :=
  List.foldl_append

/-- **A set that was in order stays in order**, with one block per height. -/
theorem extend_ordered {bs : List Block} (h : Ordered s.blocks) :
    Ordered (s.extend bs).blocks := by
  induction bs generalizing s with
  | nil => exact h
  | cons b rest ih => exact ih (s.insert b) (place_ordered h)

theorem mem_of_mem_extend {bs : List Block} {x : Block} (h : x ∈ (s.extend bs).blocks) :
    x ∈ s.blocks ∨ x ∈ bs := by
  induction bs generalizing s with
  | nil => exact .inl h
  | cons b rest ih =>
    rcases ih (s.insert b) h with h | h
    · rcases mem_place h with rfl | h
      · exact .inr List.mem_cons_self
      · exact .inl h
    · exact .inr (List.mem_cons_of_mem _ h)

/-- A height that is there stays there. -/
theorem exists_mem_insert {b x : Block} (h : x ∈ s.blocks) :
    ∃ y ∈ (s.insert b).blocks, y.height = x.height := by
  by_cases hx : x.height = b.height
  · exact ⟨b, self_mem_place b _, hx.symm⟩
  · exact ⟨x, mem_place_of_ne h hx, rfl⟩

theorem exists_mem_extend_of_mem {bs : List Block} {x : Block} (h : x ∈ s.blocks) :
    ∃ y ∈ (s.extend bs).blocks, y.height = x.height := by
  induction bs generalizing s x with
  | nil => exact ⟨x, h, rfl⟩
  | cons b rest ih =>
    obtain ⟨y, hy, hyx⟩ := s.exists_mem_insert (b := b) h
    obtain ⟨z, hz, hzy⟩ := ih (s.insert b) hy
    exact ⟨z, hz, hzy.trans hyx⟩

/-- **The heights of a set are those that were added.** -/
theorem exists_mem_extend {bs : List Block} {x : Block} (h : x ∈ bs) :
    ∃ y ∈ (s.extend bs).blocks, y.height = x.height := by
  induction bs generalizing s with
  | nil => exact absurd h List.not_mem_nil
  | cons b rest ih =>
    rcases List.mem_cons.1 h with rfl | h
    · exact (s.insert x).exists_mem_extend_of_mem (self_mem_place x _)
    · exact ih (s.insert b) h

theorem Ordered.nodup {bs : List Block} (h : Ordered bs) : bs.Nodup := by
  refine List.Pairwise.imp ?_ h
  rintro a b hlt rfl
  exact UInt64.lt_irrefl _ hlt

theorem Ordered.eq_of_height {bs : List Block} (h : Ordered bs) {a b : Block} (ha : a ∈ bs)
    (hb : b ∈ bs) (hab : a.height = b.height) : a = b := by
  induction bs with
  | nil => exact absurd ha List.not_mem_nil
  | cons c rest ih =>
    obtain ⟨hc, hrest⟩ := List.pairwise_cons.1 h
    rcases List.mem_cons.1 ha with rfl | ha' <;> rcases List.mem_cons.1 hb with rfl | hb'
    · rfl
    · have hlt := hc b hb'
      rw [hab] at hlt
      exact absurd hlt (UInt64.lt_irrefl _)
    · have hlt := hc a ha'
      rw [hab] at hlt
      exact absurd hlt (UInt64.lt_irrefl _)
    · exact ih hrest ha' hb'

/-- Blocks in order hold a height once or not at all. -/
theorem Ordered.countP_height {bs : List Block} (h : Ordered bs) (height : Height) :
    bs.countP (·.height == height) = if bs.any (·.height == height) then 1 else 0 := by
  induction bs with
  | nil => rfl
  | cons c rest ih =>
    obtain ⟨hc, hrest⟩ := List.pairwise_cons.1 h
    by_cases hheight : c.height = height
    · have hnone : rest.countP (·.height == height) = 0 := by
        rw [List.countP_eq_zero]
        intro b hb hb'
        have hlt := hc b hb
        rw [hheight, eq_of_beq hb'] at hlt
        exact UInt64.lt_irrefl _ hlt
      simp [hheight, hnone]
    · simp [hheight, ih hrest]

/-- A set that is built from some blocks holds their heights. -/
theorem any_extend (bs : List Block) (height : Height) :
    (({} : BlockSet).extend bs).blocks.any (·.height == height) = bs.any (·.height == height) := by
  rw [Bool.eq_iff_iff, List.any_eq_true, List.any_eq_true]
  constructor
  · rintro ⟨b, hb, hheight⟩
    rcases mem_of_mem_extend _ hb with hb | hb
    · exact absurd hb List.not_mem_nil
    · exact ⟨b, hb, hheight⟩
  · rintro ⟨b, hb, hheight⟩
    obtain ⟨b', hb', heq⟩ := exists_mem_extend {} hb
    exact ⟨b', hb', heq ▸ hheight⟩

/-- A block is found by its height. -/
theorem get?_of_mem {s : BlockSet} (h : Ordered s.blocks) {b : Block} (hb : b ∈ s.blocks) :
    s.get? b.height = some b := by
  unfold get?
  cases hfind : s.blocks.find? (·.height == b.height) with
  | none =>
    have hne := List.find?_eq_none.1 hfind b hb
    exact absurd (beq_self_eq_true b.height) hne
  | some c =>
    have hheight : c.height = b.height := by simpa using List.find?_some hfind
    rw [h.eq_of_height (List.mem_of_find?_eq_some hfind) hb hheight]

/-- Blocks that differ in their heights are all kept. -/
theorem mem_extend_iff {bs : List Block}
    (h : ∀ a ∈ bs, ∀ b ∈ bs, a.height = b.height → a = b) {x : Block} :
    x ∈ (({} : BlockSet).extend bs).blocks ↔ x ∈ bs := by
  have hadded {y : Block} (hy : y ∈ (({} : BlockSet).extend bs).blocks) : y ∈ bs :=
    (mem_of_mem_extend _ hy).resolve_left List.not_mem_nil
  refine ⟨hadded, fun hx => ?_⟩
  obtain ⟨y, hy, hheight⟩ := exists_mem_extend {} hx
  rwa [h x hx y (hadded hy) hheight.symm]

/-- Blocks in order are told by their members. -/
theorem Ordered.eq_of_mem_iff {as bs : List Block} (has : Ordered as) (hbs : Ordered bs)
    (h : ∀ x, x ∈ as ↔ x ∈ bs) : as = bs := by
  have hperm : as.Perm bs := (List.perm_ext_iff_of_nodup has.nodup hbs.nodup).2 h
  refine hperm.eq_of_pairwise (fun a b _ _ hab hba => ?_) has hbs
  exact absurd (UInt64.lt_trans hab hba) (UInt64.lt_irrefl _)

/-- The bounds of a set to which some blocks were added: the lowest and the highest of their heights. -/
structure Bounds (s : BlockSet) (added : List Block) : Prop where
  positive : ∀ b ∈ added, b.height ≠ 0
  none : added = [] → s.lowest = 0 ∧ s.highest = 0
  low : added ≠ [] → ∃ b ∈ added, b.height = s.lowest
  high : added ≠ [] → ∃ b ∈ added, b.height = s.highest
  lowest_le : ∀ b ∈ added, s.lowest ≤ b.height
  le_highest : ∀ b ∈ added, b.height ≤ s.highest

theorem bounds_empty : Bounds {} [] where
  positive _ hb := absurd hb List.not_mem_nil
  none _ := ⟨rfl, rfl⟩
  low h := absurd rfl h
  high h := absurd rfl h
  lowest_le _ hb := absurd hb List.not_mem_nil
  le_highest _ hb := absurd hb List.not_mem_nil

theorem Bounds.insert {s : BlockSet} {added : List Block} {b : Block} (h : Bounds s added)
    (hb : b.height ≠ 0) : Bounds (s.insert b) (added ++ [b]) := by
  have hlow : (s.insert b).lowest = if s.lowest = 0 ∨ b.height < s.lowest then b.height else s.lowest :=
    rfl
  have hhigh : (s.insert b).highest =
      if s.highest = 0 ∨ s.highest < b.height then b.height else s.highest := rfl
  -- a bound of zero means that nothing was added so far
  have hnone {x : Block} (hx : x ∈ added) : s.lowest ≠ 0 ∧ s.highest ≠ 0 := by
    obtain ⟨y, hy, hylow⟩ := h.low (List.ne_nil_of_mem hx)
    obtain ⟨z, hz, hzhigh⟩ := h.high (List.ne_nil_of_mem hx)
    exact ⟨hylow ▸ h.positive y hy, hzhigh ▸ h.positive z hz⟩
  have hself : b ∈ added ++ [b] := List.mem_append_right _ (List.mem_singleton_self b)
  refine ⟨?_, ?_, ?_, ?_, ?_, ?_⟩
  · intro x hx
    rcases List.mem_append.1 hx with hx | hx
    · exact h.positive x hx
    · rwa [List.mem_singleton.1 hx]
  · intro hempty
    rw [hempty] at hself
    exact absurd hself List.not_mem_nil
  · intro _
    rw [hlow]
    split
    · exact ⟨b, hself, rfl⟩
    · rename_i hkeep
      have hne : added ≠ [] := fun hempty => hkeep (.inl (h.none hempty).1)
      obtain ⟨x, hx, hxlow⟩ := h.low hne
      exact ⟨x, List.mem_append_left _ hx, hxlow⟩
  · intro _
    rw [hhigh]
    split
    · exact ⟨b, hself, rfl⟩
    · rename_i hkeep
      have hne : added ≠ [] := fun hempty => hkeep (.inl (h.none hempty).2)
      obtain ⟨x, hx, hxhigh⟩ := h.high hne
      exact ⟨x, List.mem_append_left _ hx, hxhigh⟩
  · intro x hx
    rw [hlow]
    rcases List.mem_append.1 hx with hx | hx
    · have hle := h.lowest_le x hx
      split
      · rename_i hless
        exact UInt64.le_trans (UInt64.le_of_lt (hless.resolve_left (hnone hx).1)) hle
      · exact hle
    · rw [List.mem_singleton.1 hx]
      split
      · exact UInt64.le_refl _
      · rename_i hkeep
        exact UInt64.not_lt.1 fun hlt => hkeep (.inr hlt)
  · intro x hx
    rw [hhigh]
    rcases List.mem_append.1 hx with hx | hx
    · have hle := h.le_highest x hx
      split
      · rename_i hless
        exact UInt64.le_trans hle (UInt64.le_of_lt (hless.resolve_left (hnone hx).2))
      · exact hle
    · rw [List.mem_singleton.1 hx]
      split
      · exact UInt64.le_refl _
      · rename_i hkeep
        exact UInt64.not_lt.1 fun hlt => hkeep (.inr hlt)

/-- **A set knows the lowest and the highest height** that was added. -/
theorem Bounds.extend {bs : List Block} (hbs : ∀ b ∈ bs, b.height ≠ 0) :
    ∀ {s : BlockSet} {added : List Block}, Bounds s added → Bounds (s.extend bs) (added ++ bs) := by
  induction bs with
  | nil =>
    intro s added h
    rwa [List.append_nil]
  | cons b rest ih =>
    intro s added h
    have hrest := ih (fun x hx => hbs x (List.mem_cons_of_mem _ hx))
      (h.insert (hbs b List.mem_cons_self))
    rwa [List.append_assoc] at hrest

end BlockSet

namespace RangeFetcher

variable {set merged : BlockSet} {replies : List (Except NodeError (List Block))} {e : WorkerError}

/-- The messages of the replies that are errors. -/
def errorsOf (replies : List (Except NodeError (List Block))) : List String :=
  replies.filterMap fun
    | .error e => some e.message
    | .ok _ => none

/-- The blocks of the replies that are none. -/
def blocksOf (replies : List (Except NodeError (List Block))) : List Block :=
  replies.flatMap fun r => r.toOption.getD []

theorem foldl_extend (replies : List (Except NodeError (List Block))) :
    ∀ set : BlockSet, replies.foldl (fun set r => set.extend (r.toOption.getD [])) set =
      set.extend (blocksOf replies) := by
  induction replies with
  | nil => exact fun _ => rfl
  | cons r replies ih =>
    intro set
    rw [List.foldl_cons, ih, ← BlockSet.extend_append]
    rfl

theorem merge_def (set : BlockSet) (replies : List (Except NodeError (List Block))) :
    merge set replies =
      if (errorsOf replies).isEmpty then .ok (set.extend (blocksOf replies))
      else .error (.incomplete .blocks (errorsOf replies)) := by
  rw [← foldl_extend]
  rfl

/-- **If all replies are there, all their blocks are added.** -/
theorem merge_eq_ok :
    merge set replies = .ok merged ↔
      errorsOf replies = [] ∧ merged = set.extend (blocksOf replies) := by
  rw [merge_def]
  split
  · rename_i hempty
    rw [List.isEmpty_iff] at hempty
    constructor
    · intro h
      cases h
      exact ⟨hempty, rfl⟩
    · rintro ⟨-, rfl⟩
      rfl
  · rename_i hempty
    rw [List.isEmpty_iff] at hempty
    exact ⟨nofun, fun h => absurd h.1 hempty⟩

/-- **If some replies are errors, their messages are all that is told.** -/
theorem merge_eq_error :
    merge set replies = .error e ↔
      errorsOf replies ≠ [] ∧ e = .incomplete .blocks (errorsOf replies) := by
  rw [merge_def]
  split
  · rename_i hempty
    rw [List.isEmpty_iff] at hempty
    exact ⟨nofun, fun h => absurd hempty h.1⟩
  · rename_i hempty
    rw [List.isEmpty_iff] at hempty
    constructor
    · intro h
      cases h
      exact ⟨hempty, rfl⟩
    · rintro ⟨-, rfl⟩
      rfl

theorem errorsOf_eq_nil : errorsOf replies = [] ↔ ∀ r ∈ replies, ∃ bs, r = .ok bs := by
  rw [errorsOf, List.filterMap_eq_nil_iff]
  refine forall₂_congr fun r _ => ?_
  rcases r with e | bs
  · simp
  · simp

section Arrived

variable {α : Type} {arrived : List (α × Except NodeError (List Block))}

theorem errorsOf_arrived :
    errorsOf (arrived.map Prod.snd) = [] ↔ ∀ x ∈ arrived, ∃ bs, x.2 = .ok bs := by
  rw [errorsOf_eq_nil]
  exact List.forall_mem_map

/-- Who has all the blocks had no error. -/
theorem answered_of_merge (h : merge set (arrived.map Prod.snd) = .ok merged) :
    ∀ x ∈ arrived, ∃ bs, x.2 = .ok bs :=
  errorsOf_arrived.1 (merge_eq_ok.1 h).1

/-- Who has not all the blocks had an error. -/
theorem unanswered_of_merge {e : WorkerError} (h : merge set (arrived.map Prod.snd) = .error e) :
    ¬∀ x ∈ arrived, ∃ bs, x.2 = .ok bs :=
  fun hall => (merge_eq_error.1 h).1 (errorsOf_arrived.2 hall)

end Arrived

theorem mem_blocksOf {b : Block} : b ∈ blocksOf replies ↔ ∃ bs, .ok bs ∈ replies ∧ b ∈ bs := by
  rw [blocksOf, List.mem_flatMap]
  constructor
  · rintro ⟨r, hr, hb⟩
    rcases r with e | bs
    · exact absurd hb List.not_mem_nil
    · exact ⟨bs, hr, hb⟩
  · rintro ⟨bs, hbs, hb⟩
    exact ⟨.ok bs, hbs, hb⟩

end RangeFetcher

end ChainIndex
