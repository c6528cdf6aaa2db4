import ChainIndex.Proofs.BlockSets
import ChainIndex.Proofs.Fetching
import ChainIndex.Proofs.Heights

/-!
# The newest blocks are delivered from the start of the window to the head

A node knows a chain without gaps (`Unbroken`), gives its newest blocks and any part of it that is asked
for, and never fails (`Unbroken.behavior`). Whoever asks for everything since a height gets exactly the
blocks from `Unbroken.start` to the head.

* `blocks_sinceLast`: the newest blocks and those of the gap before them, from the start on, are these.
* `latest_coverage`: **every delivery ends well with exactly these blocks**, and searches for the
  transactions of no others; what the start means for the caller.
-/

namespace ChainIndex

open Pipeline (pagesOf)

/-! ## The start of the window -/

theorem startingHeight_toNat (last window head : Height) :
    (startingHeight last window head).toNat =
      if last = 0 ∨ window.toNat < head.toNat - last.toNat then head.toNat - window.toNat
      else last.toNat := by
  unfold startingHeight
  split
  · have hlt : head.toNat < UInt64.size := head.toNat_lt
    exact UInt64.toNat_ofNat_of_lt' (by omega)
  · rfl

/-- A chain without gaps: a block for each height from 1 to that of its head. -/
structure Unbroken where
  block : Height → Block
  head : Height
  one_le_head : 1 ≤ head
  height_block : ∀ height, (block height).height = height

namespace Unbroken

variable (c : Unbroken)

/-- The blocks from one height to another, in the order of their heights. -/
def between (first last : Height) : List Block :=
  (List.range' first.toNat (last.toNat + 1 - first.toNat)).map fun n => c.block (UInt64.ofNat n)

theorem mem_between {first last : Height} {b : Block} :
    b ∈ c.between first last ↔ ∃ height, first ≤ height ∧ height ≤ last ∧ b = c.block height := by
  simp only [between, List.mem_map, List.mem_range'_1]
  constructor
  · rintro ⟨n, ⟨hfirst, hlast⟩, rfl⟩
    have hlt : last.toNat < UInt64.size := last.toNat_lt
    have hn : (UInt64.ofNat n).toNat = n := UInt64.toNat_ofNat_of_lt' (by omega)
    refine ⟨UInt64.ofNat n, ?_, ?_, rfl⟩
    · rw [UInt64.le_iff_toNat_le]
      omega
    · rw [UInt64.le_iff_toNat_le]
      omega
  · rintro ⟨height, hfirst, hlast, rfl⟩
    rw [UInt64.le_iff_toNat_le] at hfirst hlast
    exact ⟨height.toNat, by omega, by rw [UInt64.ofNat_toNat]⟩

theorem between_ordered (first last : Height) : BlockSet.Ordered (c.between first last) := by
  have hlt : last.toNat < UInt64.size := last.toNat_lt
  rw [BlockSet.Ordered, between, List.pairwise_map]
  refine List.Pairwise.imp_of_mem (fun {m n} hm hn hmn => ?_) List.pairwise_lt_range'
  rw [List.mem_range'_1] at hm hn
  rw [c.height_block, c.height_block, UInt64.lt_iff_toNat_lt, UInt64.toNat_ofNat_of_lt' (by omega),
    UInt64.toNat_ofNat_of_lt' (by omega)]
  exact hmn

theorem length_between (first last : Height) :
    (c.between first last).length = last.toNat + 1 - first.toNat := by
  rw [between, List.length_map, List.length_range']

/-- The lowest of the newest blocks, of which there are as many as a node gives at once. -/
def tip : Height :=
  UInt64.ofNat (c.head.toNat + 1 - min RangeFetcher.partSize.toNat c.head.toNat)

theorem tip_toNat : c.tip.toNat = c.head.toNat + 1 - min 20 c.head.toNat := by
  have hlt : c.head.toNat < UInt64.size := c.head.toNat_lt
  have hone : 1 ≤ c.head.toNat := UInt64.le_iff_toNat_le.1 c.one_le_head
  have hpart : RangeFetcher.partSize.toNat = 20 := rfl
  exact UInt64.toNat_ofNat_of_lt' (by omega)

theorem tip_bounds : 1 ≤ c.tip.toNat ∧ c.tip.toNat ≤ c.head.toNat := by
  have hone : 1 ≤ c.head.toNat := UInt64.le_iff_toNat_le.1 c.one_le_head
  have htip := c.tip_toNat
  omega

/-- What a node may reply that knows the chain, each time in any order: the newest blocks, and any part
of the chain. Searches succeed. Nothing is promised for questions of another kind. -/
def behavior : Behavior where
  blocks range limit reply :=
    (range = {} → limit = RangeFetcher.partSize →
      ∃ bs, reply = .ok bs ∧ ∀ b, b ∈ bs ↔ b ∈ c.between c.tip c.head) ∧
    (limit = 0 → 1 ≤ range.first → range.last ≤ c.head →
      ∃ bs, reply = .ok bs ∧ ∀ b, b ∈ bs ↔ b ∈ c.between range.first range.last)
  search _ reply := ∃ raws, reply = .ok raws

theorem behavior_total : c.behavior.Total where
  blocks range limit := by
    by_cases hlimit : limit = 0
    · refine ⟨.ok (c.between range.first range.last), ?_, fun _ _ _ => ⟨_, rfl, fun _ => Iff.rfl⟩⟩
      intro _ hpart
      rw [hlimit] at hpart
      cases hpart
    · exact ⟨.ok (c.between c.tip c.head), fun _ _ => ⟨_, rfl, fun _ => Iff.rfl⟩,
        fun h => absurd h hlimit⟩
  search _ := ⟨.ok [], [], rfl⟩

/-! ## The newest blocks -/

variable {c}

theorem eq_of_height {first last first' last' : Height} {a b : Block}
    (ha : a ∈ c.between first last) (hb : b ∈ c.between first' last') (h : a.height = b.height) :
    a = b := by
  obtain ⟨i, -, -, rfl⟩ := c.mem_between.1 ha
  obtain ⟨j, -, -, rfl⟩ := c.mem_between.1 hb
  rw [c.height_block, c.height_block] at h
  rw [h]

/-- The newest blocks tell where the chain ends. -/
theorem bounds_newest {newest : List Block} (h : ∀ b, b ∈ newest ↔ b ∈ c.between c.tip c.head) :
    (({} : BlockSet).extend newest).lowest = c.tip ∧
      (({} : BlockSet).extend newest).highest = c.head := by
  obtain ⟨hone, hle⟩ := c.tip_bounds
  have hpos : ∀ b ∈ newest, b.height ≠ 0 := by
    intro b hb hzero
    obtain ⟨height, hfirst, -, rfl⟩ := c.mem_between.1 ((h b).1 hb)
    rw [c.height_block] at hzero
    rw [hzero, UInt64.le_iff_toNat_le] at hfirst
    exact absurd hfirst (by simp; omega)
  have htip : c.block c.tip ∈ newest :=
    (h _).2 (c.mem_between.2 ⟨_, UInt64.le_refl _, UInt64.le_iff_toNat_le.2 hle, rfl⟩)
  have hhead : c.block c.head ∈ newest :=
    (h _).2 (c.mem_between.2 ⟨_, UInt64.le_iff_toNat_le.2 hle, UInt64.le_refl _, rfl⟩)
  have hbounds := BlockSet.bounds_empty.extend hpos
  rw [List.nil_append] at hbounds
  have hne : newest ≠ [] := List.ne_nil_of_mem htip
  constructor
  · obtain ⟨b, hb, hlow⟩ := hbounds.low hne
    obtain ⟨height, hfirst, -, rfl⟩ := c.mem_between.1 ((h b).1 hb)
    rw [c.height_block] at hlow
    have hlowest := hbounds.lowest_le _ htip
    rw [c.height_block] at hlowest
    exact UInt64.le_antisymm hlowest (hlow ▸ hfirst)
  · obtain ⟨b, hb, hhigh⟩ := hbounds.high hne
    obtain ⟨height, -, hlast, rfl⟩ := c.mem_between.1 ((h b).1 hb)
    rw [c.height_block] at hhigh
    have hhighest := hbounds.le_highest _ hhead
    rw [c.height_block] at hhighest
    exact UInt64.le_antisymm (hhigh ▸ hlast) hhighest

variable (c) in
/-- Where the delivery of everything since a height begins. -/
def start (window last : Height) : Height :=
  max (startingHeight last window c.head) 1

variable (c) in
/-- The parts of the gap between the start and the newest blocks, if there is one. -/
def gap (window last : Height) : List HeightRange :=
  if c.start window last < c.tip then
    ({ first := c.start window last, last := c.tip - 1 } : HeightRange).split RangeFetcher.partSize
  else []

variable {window last : Height}

theorem start_toNat :
    (c.start window last).toNat = max (startingHeight last window c.head).toNat 1 := by
  rw [start, UInt64.toNat_max]
  rfl

/-- Who is within the window misses nothing. -/
theorem start_eq_last (hone : 1 ≤ last)
    (hwindow : c.head.toNat - last.toNat ≤ window.toNat) : c.start window last = last := by
  have hone' : 1 ≤ last.toNat := UInt64.le_iff_toNat_le.1 hone
  have hnone : ¬(last = 0 ∨ window.toNat < c.head.toNat - last.toNat) := by
    rintro (rfl | hless)
    · exact absurd hone' (by decide)
    · omega
  rw [← UInt64.toNat_inj, start_toNat, startingHeight_toNat, if_neg hnone]
  exact Nat.max_eq_left hone'

/-- Nothing below the last height is sent. -/
theorem le_start (hne : last ≠ 0) : last ≤ c.start window last := by
  rw [UInt64.le_iff_toNat_le, start_toNat, startingHeight_toNat]
  split
  · rename_i hcut
    have hless := hcut.resolve_left hne
    omega
  · omega

/-- There are no more blocks than the window has heights, and one. -/
theorem length_from_start_le :
    (c.between (c.start window last) c.head).length ≤ window.toNat + 1 := by
  rw [c.length_between, start_toNat, startingHeight_toNat]
  split
  · omega
  · rename_i hnone
    rw [not_or] at hnone
    omega

/-- The parts of the gap lie in the chain. -/
theorem gap_within {part : HeightRange} (h : part ∈ c.gap window last) :
    1 ≤ part.first ∧ part.last ≤ c.head := by
  rw [gap] at h
  split at h
  · obtain ⟨hfirst, -, hlast⟩ := HeightRange.mem_split h
    obtain ⟨hone, htip⟩ := c.tip_bounds
    have hstart : 1 ≤ (c.start window last).toNat := by
      rw [start_toNat]
      omega
    have hbefore : (c.tip - 1).toNat = c.tip.toNat - 1 :=
      UInt64.toNat_sub_of_le _ _ (UInt64.le_iff_toNat_le.2 hone)
    rw [UInt64.le_iff_toNat_le] at hfirst hlast
    rw [UInt64.le_iff_toNat_le, UInt64.le_iff_toNat_le]
    refine ⟨?_, ?_⟩
    · exact Nat.le_trans hstart hfirst
    · simp only at hlast
      omega
  · exact absurd h List.not_mem_nil

/-- The parts of the gap hold the heights from the start up to the newest blocks. -/
theorem gap_holds {height : Height} :
    (∃ part ∈ c.gap window last, part.Holds height) ↔ c.start window last ≤ height ∧ height < c.tip := by
  obtain ⟨hone, -⟩ := c.tip_bounds
  have hbefore : (c.tip - 1).toNat = c.tip.toNat - 1 :=
    UInt64.toNat_sub_of_le _ _ (UInt64.le_iff_toNat_le.2 hone)
  rw [gap]
  split
  · constructor
    · rintro ⟨part, hpart, hin⟩
      obtain ⟨hfirst, hlast⟩ := HeightRange.holds_of_mem_split hpart hin
      rw [UInt64.le_iff_toNat_le] at hlast
      refine ⟨hfirst, UInt64.lt_iff_toNat_lt.2 ?_⟩
      simp only at hlast
      omega
    · rintro ⟨hfirst, hlast⟩
      rw [UInt64.lt_iff_toNat_lt] at hlast
      refine HeightRange.exists_mem_split ⟨hfirst, UInt64.le_iff_toNat_le.2 ?_⟩ _
      show height.toNat ≤ (c.tip - 1).toNat
      omega
  · rename_i hnone
    constructor
    · rintro ⟨part, hpart, -⟩
      exact absurd hpart List.not_mem_nil
    · rintro ⟨hfirst, hlast⟩
      exact absurd (UInt64.lt_of_le_of_lt hfirst hlast) hnone

section Newest

variable {newest : List Block} {q : LatestQuery}

/-- What is delivered since a height: the gap and the newest blocks, from the start on. -/
theorem sinceLast_eq (h : ∀ b, b ∈ newest ↔ b ∈ c.between c.tip c.head) :
    Segment.sinceLast window q (({} : BlockSet).extend newest) =
      { parts := c.gap window q.lastHeight
        known := ({} : BlockSet).extend newest
        first := c.start window q.lastHeight } := by
  obtain ⟨hlowest, hhighest⟩ := bounds_newest h
  rw [Segment.sinceLast, hlowest, hhighest]
  rfl

/-- The chain answers for every part of the gap. -/
theorem gap_answered {arrived : List (HeightRange × BlocksReply)} {seg : Segment}
    (hgathered : seg.Gathered c.behavior [] arrived) (hparts : seg.parts = c.gap window last) :
    ∀ x ∈ arrived, x.1 ∈ c.gap window last ∧
      ∃ bs, x.2 = .ok bs ∧ ∀ b, b ∈ bs ↔ b ∈ c.between x.1.first x.1.last := by
  intro x hx
  have hall := hgathered.parts
  rw [List.append_nil, hparts] at hall
  have hmem : x.1 ∈ c.gap window last := hall.subset (List.mem_map_of_mem hx)
  obtain ⟨hfirst, hlast⟩ := gap_within hmem
  exact ⟨hmem, (hgathered.replies x hx).2 rfl hfirst hlast⟩

/-- The blocks that are received for the gap. -/
theorem mem_gap_blocks {arrived : List (HeightRange × BlocksReply)} {seg : Segment}
    (hgathered : seg.Gathered c.behavior [] arrived) (hparts : seg.parts = c.gap window last)
    {b : Block} :
    b ∈ RangeFetcher.blocksOf (arrived.map Prod.snd) ↔
      ∃ height, c.start window last ≤ height ∧ height < c.tip ∧ b = c.block height := by
  have hanswered := gap_answered hgathered hparts
  have hall := hgathered.parts
  rw [List.append_nil, hparts] at hall
  rw [RangeFetcher.mem_blocksOf]
  constructor
  · rintro ⟨bs, hbs, hb⟩
    obtain ⟨x, hx, hreply⟩ := List.mem_map.1 hbs
    obtain ⟨hpart, bs', hbs', hmem⟩ := hanswered x hx
    rw [hbs'] at hreply
    cases hreply
    obtain ⟨height, hfirst, hlast, rfl⟩ := c.mem_between.1 ((hmem b).1 hb)
    obtain ⟨hstart, htip⟩ := gap_holds.1 ⟨x.1, hpart, hfirst, hlast⟩
    exact ⟨height, hstart, htip, rfl⟩
  · rintro ⟨height, hstart, htip, rfl⟩
    obtain ⟨part, hpart, hin⟩ := gap_holds.2 ⟨hstart, htip⟩
    obtain ⟨x, hx, rfl⟩ := List.mem_map.1 (hall.symm.subset hpart)
    obtain ⟨-, bs, hbs, hmem⟩ := hanswered x hx
    refine ⟨bs, hbs ▸ List.mem_map_of_mem hx, (hmem _).2 (c.mem_between.2 ?_)⟩
    exact ⟨height, hin.1, hin.2, rfl⟩

/-- **The newest blocks and those of the gap, from the start on, are all from there to the head.** -/
theorem blocks_sinceLast (h : ∀ b, b ∈ newest ↔ b ∈ c.between c.tip c.head)
    {arrived : List (HeightRange × BlocksReply)} {seg : Segment} {set : BlockSet}
    (hseg : seg = .sinceLast window q (({} : BlockSet).extend newest))
    (hgathered : seg.Gathered c.behavior [] arrived)
    (hmerge : RangeFetcher.merge seg.known (arrived.map Prod.snd) = .ok set) :
    seg.selected set = c.between (c.start window q.lastHeight) c.head := by
  rw [sinceLast_eq h] at hseg
  obtain ⟨hone, htip⟩ := c.tip_bounds
  set received := RangeFetcher.blocksOf (arrived.map Prod.snd) with hreceived
  have hgap : ∀ b, b ∈ received ↔ ∃ height, c.start window q.lastHeight ≤ height ∧ height < c.tip ∧
      b = c.block height := fun b => mem_gap_blocks hgathered (by rw [hseg])
  obtain ⟨-, hset⟩ := RangeFetcher.merge_eq_ok.1 hmerge
  rw [hseg, ← hreceived, ← BlockSet.extend_append] at hset
  -- all blocks that came in are the chain's own, so each stays
  have hmem : ∀ b, b ∈ set.blocks ↔ b ∈ newest ∨ b ∈ received := by
    intro b
    rw [hset, BlockSet.mem_extend_iff, List.mem_append]
    have hown : ∀ a ∈ newest ++ received, ∃ height, a = c.block height := by
      intro a ha
      rcases List.mem_append.1 ha with ha | ha
      · obtain ⟨height, -, -, ha⟩ := c.mem_between.1 ((h a).1 ha)
        exact ⟨height, ha⟩
      · obtain ⟨height, -, -, ha⟩ := (hgap a).1 ha
        exact ⟨height, ha⟩
    intro a ha b hb hheight
    obtain ⟨i, rfl⟩ := hown a ha
    obtain ⟨j, rfl⟩ := hown b hb
    rw [c.height_block, c.height_block] at hheight
    rw [hheight]
  have hordered : BlockSet.Ordered set.blocks := by
    rw [hset]
    exact BlockSet.extend_ordered _ List.Pairwise.nil
  refine BlockSet.Ordered.eq_of_mem_iff (hordered.filter _) (c.between_ordered _ _) fun b => ?_
  rw [Segment.selected, List.mem_filter, hmem, h, hgap, c.mem_between, c.mem_between, hseg,
    decide_eq_true_eq]
  constructor
  · rintro ⟨⟨height, hfirst, hlast, rfl⟩ | ⟨height, hfirst, hlast, rfl⟩, hstart⟩
    · rw [c.height_block] at hstart
      exact ⟨height, hstart, hlast, rfl⟩
    · exact ⟨height, hfirst, UInt64.le_of_lt (UInt64.lt_of_lt_of_le hlast
        (UInt64.le_iff_toNat_le.2 htip)), rfl⟩
  · rintro ⟨height, hstart, hlast, rfl⟩
    rw [c.height_block]
    refine ⟨?_, hstart⟩
    by_cases hnew : c.tip ≤ height
    · exact .inl ⟨height, hnew, hlast, rfl⟩
    · exact .inr ⟨height, hstart, UInt64.not_le.1 hnew, rfl⟩

end Newest

/-! ## The delivery -/

variable (c) in
/-- What a delivery of everything since a height amounts to: it ends well, what was sent are the blocks
from the start to the head, and what was asked for are the newest blocks, the gap before them, and the
transactions of these blocks. -/
structure Covered (window : Height) (q : LatestQuery) (s : Transfer) : Prop where
  outcome : s.stage = .ended (.ok ())
  blocks : s.trail.sent.filterMap Payload.block? =
    c.between (c.start window q.lastHeight) c.head
  asked : s.trail.asked = .blocks {} RangeFetcher.partSize ::
    ((c.gap window q.lastHeight).map (fun part => .blocks part 0) ++
      (pagesOf (c.between (c.start window q.lastHeight) c.head)).map .search)
  searched : (s.trail.found.map Prod.fst).Perm
    (pagesOf (c.between (c.start window q.lastHeight) c.head))

variable {σ : Type} {f : RangeFetcher σ} {q : LatestQuery} {s : Transfer}

/-- The only segment of a delivery that has finished. -/
theorem covered_of_complete {newest : List Block} {r : Report}
    (h : ∀ b, b ∈ newest ↔ b ∈ c.between c.tip c.head)
    (hseg : r.segment = .sinceLast f.config.window q (({} : BlockSet).extend newest))
    (hr : r.Complete f c.behavior) (hstage : s.stage = .ended (.ok ()))
    (htrail : s.trail = Transfer.askedLatest ++ { heard := [({}, .ok newest)] } ++ r.trail) :
    c.Covered f.config.window q s := by
  have hblocks : r.blocks = c.between (c.start f.config.window q.lastHeight) c.head :=
    blocks_sinceLast h hseg hr.gathered hr.merged
  have hquestions : r.segment.questions =
      (c.gap f.config.window q.lastHeight).map fun part => .blocks part 0 := by
    rw [hseg, sinceLast_eq h]
    rfl
  have hsettled := hr.settled
  rw [hblocks] at hsettled
  refine ⟨hstage, ?_, ?_, ?_⟩
  · rw [htrail]
    exact hsettled.blocks_eq
  · rw [htrail, Trail.asked_append, Report.trail, hquestions, hblocks]
    rfl
  · rw [htrail]
    exact hsettled.found_perm

/-- **A delivery of everything since a height can only end well.** -/
theorem covered_of_ended {outcome : Except WorkerError Unit} (hopen : f.isOpen = true)
    (hs : Transfer.Steps f c.behavior (Transfer.startLatest f q) s)
    (hended : s.stage = .ended outcome) : c.Covered f.config.window q s := by
  cases Transfer.standing_latest hs with
  | waiting => cases hended
  | unreachable e hreply =>
    obtain ⟨bs, hbs, -⟩ := hreply.1 rfl rfl
    cases hbs
  | empty bs hreply hempty =>
    -- the head is among the newest blocks
    obtain ⟨bs', hbs, h⟩ := hreply.1 rfl rfl
    cases hbs
    obtain ⟨-, htip⟩ := c.tip_bounds
    have hhead : c.block c.head ∈ bs :=
      (h _).2 (c.mem_between.2 ⟨_, UInt64.le_iff_toNat_le.2 htip, UInt64.le_refl _, rfl⟩)
    obtain ⟨b, hb, -⟩ := BlockSet.exists_mem_extend {} hhead
    rw [BlockSet.isEmpty, List.isEmpty_iff] at hempty
    rw [hempty] at hb
    exact absurd hb List.not_mem_nil
  | known bs hreply hempty hstanding =>
    obtain ⟨bs', hbs, h⟩ := hreply.1 rfl rfl
    cases hbs
    cases hstanding with
    | idle | gathering | streaming => cases hended
    | finished done hpast ht =>
      obtain ⟨r, rfl, hseg, hr⟩ := hpast.report_of_single
      refine covered_of_complete h hseg hr rfl ?_
      rw [ht]
      exact congrArg (_ ++ ·) (Trail.append_nil _)
    | refused e done seg hpast arrived hgathered hmerge ht =>
      obtain ⟨-, rfl, -⟩ := hpast.of_single
      have hanswered := gap_answered hgathered (by rw [sinceLast_eq h])
      refine absurd (fun x hx => ?_) (RangeFetcher.unanswered_of_merge hmerge)
      obtain ⟨-, bs, hbs, -⟩ := hanswered x hx
      exact ⟨bs, hbs⟩
    | closed done seg hpast arrived hgathered set hmerge hclosed ht =>
      rw [hopen] at hclosed
      cases hclosed
    | failed done r hpast hgathered hmerge hsettled hfailures ht =>
      exact absurd (Pipeline.failuresOf_eq_nil.2 hsettled.answered) hfailures

end Unbroken

/-! ## A source that knows the chain -/

namespace Unbroken

def source (c : Unbroken) : Source Stillness :=
  .ofAnswers
    (fun range => .ok (if range = {} then c.between c.tip c.head
      else c.between range.first range.last))
    fun _ => .ok []

theorem follows_source (c : Unbroken) (deadline : Deadline) :
    c.source.Follows deadline c.behavior fun _ => True := by
  have hblocks (range : HeightRange) (limit : UInt64) : c.behavior.blocks range limit
      (.ok (if range = {} then c.between c.tip c.head else c.between range.first range.last)) := by
    refine ⟨?_, ?_⟩
    · rintro rfl -
      exact ⟨_, rfl, fun _ => Iff.rfl⟩
    · intro _ hfirst _
      have hne : range ≠ {} := by
        rintro rfl
        exact absurd hfirst (by decide)
      exact ⟨_, by rw [if_neg hne], fun _ => Iff.rfl⟩
  exact follows_ofAnswers hblocks (fun _ => ⟨[], rfl⟩) deadline

end Unbroken

/-- **Coverage of the newest blocks.** However replies, searches and the decoder are interleaved: the
delivery of everything since a height always ends, and ends well with the blocks from the start to the
head, each once and in the order of their heights, and with searches for no others. So does whatever a
fetcher does with a source that knows the chain. The start is such that no height is missed since a last
one that lies within the window, that nothing before a last height is sent, and that no more blocks are
sent than the window has heights, and one. -/
theorem latest_coverage {σ : Type} [Clocked σ] (c : Unbroken) (f : RangeFetcher σ) (q : LatestQuery)
    (hopen : f.isOpen = true) :
    Ends (Transfer.Step f c.behavior) (fun s => s.Over ∧ c.Covered f.config.window q s)
        (Transfer.startLatest f q) ∧
      (∀ (I : σ → Prop) (deadline : Deadline) (world : σ),
        f.source.Follows deadline c.behavior I → I world →
        (f.fetchLatest q deadline world).1.outcome = .ok () ∧
          (f.fetchLatest q deadline world).1.payloads.filterMap Payload.block? =
            c.between (c.start f.config.window q.lastHeight) c.head) ∧
      (1 ≤ q.lastHeight → q.lastHeight ≤ c.head →
        c.head.toNat - q.lastHeight.toNat ≤ f.config.window.toNat →
        ∀ height, q.lastHeight ≤ height → height ≤ c.head →
          c.block height ∈ c.between (c.start f.config.window q.lastHeight) c.head) ∧
      (q.lastHeight ≠ 0 → q.lastHeight ≤ c.start f.config.window q.lastHeight) ∧
      (c.between (c.start f.config.window q.lastHeight) c.head).length ≤
        f.config.window.toNat + 1 := by
  refine ⟨?_, ?_, fun hone _ hwindow height hfrom hto => ?_, Unbroken.le_start,
    Unbroken.length_from_start_le⟩
  · refine (Transfer.ends_of_kept c.behavior_total (Transfer.kept_startLatest f q)).imp ?_
    rintro s ⟨hover, hsteps⟩
    obtain ⟨outcome, hended⟩ := hover.ended
    exact ⟨hover, Unbroken.covered_of_ended hopen hsteps hended⟩
  · intro I deadline world hf hworld
    obtain ⟨s, hsteps, -, hended, hsent⟩ := f.fetchLatest_steps hf world hworld q
    have hcovered := Unbroken.covered_of_ended hopen hsteps hended
    have houtcome := hended.symm.trans hcovered.outcome
    exact ⟨by injection houtcome, hsent ▸ hcovered.blocks⟩
  · rw [Unbroken.start_eq_last hone hwindow]
    exact c.mem_between.2 ⟨height, hfrom, hto, rfl⟩

/-- A chain of 22 blocks. Who knows the first one gets all that come after it, from the second one on if
the window is 20. -/
theorem latest_coverage_twenty :
    let c : Unbroken :=
      { block := fun height => { height }, head := 22, one_le_head := by decide,
        height_block := fun _ => rfl }
    let f : RangeFetcher Stillness := { source := c.source, config := { window := 20 } }
    let d := (f.fetchLatest { lastHeight := 1 } none {}).1
    f.isOpen = true ∧ d.outcome = .ok () ∧
      d.payloads.filterMap Payload.block? =
        (List.range' 2 21).map fun n => { height := UInt64.ofNat n } := by
  intro c f d
  obtain ⟨houtcome, hblocks⟩ := (latest_coverage c f { lastHeight := 1 } rfl).2.1 (fun _ => True)
    none {} (c.follows_source none) trivial
  exact ⟨rfl, houtcome, hblocks⟩

end ChainIndex
