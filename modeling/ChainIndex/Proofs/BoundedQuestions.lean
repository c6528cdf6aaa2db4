import ChainIndex.Config
import ChainIndex.Proofs.Completeness
import ChainIndex.Proofs.Origins
import ChainIndex.Proofs.Partitions
import ChainIndex.Proofs.SearchFailures

/-!
# Which questions for a range have no end

A range has to end somewhere, since a last height of zero asks for the newest blocks. Its parts are not
checked again. They all end somewhere but for one: if a range begins at height zero and a page is one
height, then height zero is a part of its own (`HeightRange.ZeroAlone`).

* `last_eq_zero`: **no other part ends at zero.**
* `questions_bounded`: but for this case, a delivery asks only for what ends somewhere, and sends only
  blocks of the range. In this case it asks for the newest blocks first (`newest_by_accident`).
-/

namespace ChainIndex

namespace HeightRange

/-- Height zero is a part of its own. -/
def ZeroAlone (r : HeightRange) (page : UInt64) : Prop :=
  r.first = 0 ∧ page = 1

instance (r : HeightRange) (page : UInt64) : Decidable (r.ZeroAlone page) :=
  inferInstanceAs (Decidable (_ ∧ _))

variable {range part : HeightRange} {page : UInt64}

theorem holds_of_mem_partsBy (h : part ∈ range.partsBy page) {height : Height}
    (hheight : part.Holds height) : range.Holds height := by
  obtain ⟨big, hbig, hpart⟩ := List.mem_flatMap.1 h
  exact holds_of_mem_split hbig (holds_of_mem_split hpart hheight)

theorem eq_of_mem_partsBy (h : part ∈ range.partsBy page) :
    part = { range with first := part.first, last := part.last } := by
  have hle : range.first ≤ range.last := by
    obtain ⟨big, hbig, -⟩ := List.mem_flatMap.1 h
    obtain ⟨hfirst, hbig, hlast⟩ := mem_split hbig
    exact UInt64.le_trans hfirst (UInt64.le_trans hbig hlast)
  obtain ⟨hchain, hnetwork, -⟩ := (partsBy_partition hle page).of_mem part h
  rw [← hchain, ← hnetwork]

/-- A part that ends at zero is the whole range, or a page is one height. -/
theorem of_last_eq_zero (hpart : part ∈ range.split page) (hzero : part.last = 0) :
    part.first = 0 ∧ range.first = 0 ∧ (range.last = 0 ∨ page.toNat ≤ 1) := by
  obtain ⟨hrange, hle, -⟩ := mem_split hpart
  have hfirst : part.first = 0 := UInt64.le_zero_iff.1 (hzero ▸ hle)
  have hbegin : range.first = 0 := UInt64.le_zero_iff.1 (hfirst ▸ hrange)
  refine ⟨hfirst, hbegin, ?_⟩
  by_cases hlast : range.last = 0
  · exact .inl hlast
  · -- such a part is a whole page, and it has one height
    have hall : range.first ≤ range.last := hbegin ▸ UInt64.zero_le
    have hne : part.last ≠ range.last := fun h => hlast (h ▸ hzero)
    have hsize : part.size = max page.toNat 1 := (walk_split hall).size_eq hall part hpart hne
    have hone : part.size = 1 := by
      rw [size, hfirst, hzero]
      rfl
    exact .inr (by omega)

/-- **No part ends at zero but height zero alone.** -/
theorem last_eq_zero (hlast : range.last ≠ 0) (hpage : page ≠ 0) (hpart : part ∈ range.partsBy page)
    (hzero : part.last = 0) : range.ZeroAlone page ∧ part = { range with last := 0 } := by
  obtain ⟨big, hbig, hsmall⟩ := List.mem_flatMap.1 hpart
  obtain ⟨hfirst, -, hend⟩ := of_last_eq_zero hsmall hzero
  have hbigZero : big.last = 0 := hend.resolve_right (by decide)
  obtain ⟨-, hbegin, hwhole⟩ := of_last_eq_zero hbig hbigZero
  have hone : page = 1 := by
    have hle := hwhole.resolve_left hlast
    rw [Ne, ← UInt64.toNat_inj] at hpage
    rw [← UInt64.toNat_inj]
    show page.toNat = 1
    have hpos : page.toNat ≠ 0 := hpage
    omega
  refine ⟨⟨hbegin, hone⟩, ?_⟩
  rw [eq_of_mem_partsBy hpart, hfirst, hzero, ← hbegin]

/-- Where height zero is alone, it comes first. -/
theorem split_zeroAlone (h : range.ZeroAlone page) :
    ∃ others, range.split page = { range with last := 0 } :: others := by
  obtain ⟨hfirst, rfl⟩ := h
  have hstop : range.stop 1 = 0 := by
    rw [← UInt64.toNat_inj, stop_toNat, hfirst]
    exact Nat.zero_min _
  rw [split_of_le (hfirst ▸ UInt64.zero_le), hstop]
  split
  · exact ⟨_, rfl⟩
  · exact ⟨_, rfl⟩

theorem split_zero (hfirst : range.first = 0) (page : UInt64) :
    ({ range with last := 0 } : HeightRange).split page = [{ range with last := 0 }] := by
  have hstop : ({ range with last := 0 } : HeightRange).stop page = 0 := by
    rw [← UInt64.toNat_inj, stop_toNat]
    exact Nat.min_zero _
  have hle : ({ range with last := 0 } : HeightRange).first ≤ 0 := UInt64.le_zero_iff.2 hfirst
  rw [split_of_le hle, hstop, if_pos rfl]

theorem zero_mem_partsBy (h : range.ZeroAlone page) :
    { range with last := 0 } ∈ range.partsBy page := by
  obtain ⟨others, hsplit⟩ := split_zeroAlone h
  refine List.mem_flatMap.2 ⟨{ range with last := 0 }, hsplit ▸ List.mem_cons_self, ?_⟩
  rw [split_zero h.1]
  exact List.mem_cons_self

end HeightRange

/-! ## What is asked for -/

/-- A node that answers a question that ends somewhere only with heights inside. -/
def Behavior.Bounded (node : Behavior) : Prop :=
  ∀ part bs, part.last ≠ 0 → node.blocks part 0 (.ok bs) → ∀ b ∈ bs, part.Holds b.height

theorem WorkerConfig.bigPage_ne_zero {c : WorkerConfig} (h : c.validate = .ok ()) : c.bigPage ≠ 0 := by
  intro hzero
  have hfound : ∃ l ∈ c.limits, l.2 == 0 :=
    ⟨("big_page", c.bigPage), by simp [limits], by simp [hzero]⟩
  have hsome : (c.limits.find? fun l => l.2 == 0).isSome := List.find?_isSome.2 hfound
  obtain ⟨l, hl⟩ := Option.isSome_iff_exists.1 hsome
  rw [validate] at h
  split at h
  · cases h
  · split at h
    · cases h
    · rw [hl] at h
      cases h

theorem TaskRequest.last_ne_zero {range : HeightRange} (h : checkRange range = .ok ()) :
    range.last ≠ 0 := by
  intro hzero
  rw [checkRange, if_pos hzero] at h
  cases h

namespace Transfer

variable {σ : Type} {f : RangeFetcher σ} {node : Behavior} {s : Transfer}

/-- What is asked for the first segment of a delivery is asked for. -/
theorem first_questions {first : Segment} {rest : List Segment} {outcome : Except WorkerError Unit}
    (hs : Steps f node (start f (first :: rest)) s) (hended : s.stage = .ended outcome) :
    first.questions ⊆ s.trail.asked := by
  have hdone {done : List Report} {left : List Segment}
      (hsegs : first :: rest = done.map Report.segment ++ left) (hne : done ≠ []) :
      first.questions ⊆ (Report.trails done).asked := by
    obtain ⟨r, done, rfl⟩ := List.exists_cons_of_ne_nil hne
    obtain ⟨rfl, -⟩ := List.cons.inj hsegs
    exact fun _ h => List.mem_append_left _ (List.mem_append_left _ h)
  have hstanding := (standing_start f node (first :: rest)).steps hs
  cases hstanding with
  | idle | gathering | streaming => cases hended
  | finished done hpast ht =>
    rw [ht]
    refine hdone hpast.segments ?_
    rintro rfl
    cases hpast.segments
  | refused e done seg hpast arrived hgathered hmerge ht
  | closed done seg hpast arrived hgathered set hmerge hclosed ht =>
    rw [ht]
    -- it is the segment that was refused, or one before it
    by_cases hnone : done = []
    · subst hnone
      cases hpast.segments
      exact fun _ h => List.mem_append_right _ h
    · exact fun _ h => List.mem_append_left _ (hdone hpast.segments hnone h)
  | @failed left _ _ done r hpast hgathered hmerge hsettled hfailures ht =>
    have hsegs : first :: rest = (done ++ [r]).map Report.segment ++ left := by
      rw [hpast.segments, List.map_append, List.append_assoc]
      rfl
    rw [ht]
    exact hdone hsegs (List.append_ne_nil_of_right_ne_nil _ (List.cons_ne_nil _ _))

variable {range : HeightRange}

variable (f range) in
/-- What is asked for of a range are the parts of its pages. -/
theorem flatMap_segments :
    (f.segments range).flatMap Segment.parts = range.partsBy f.config.bigPage :=
  List.flatMap_map _ _ _

theorem mem_partsBy {seg : Segment} {part : HeightRange} (hseg : seg ∈ f.segments range)
    (hpart : part ∈ seg.parts) : part ∈ range.partsBy f.config.bigPage :=
  flatMap_segments f range ▸ List.mem_flatMap.2 ⟨seg, hseg, hpart⟩

/-- What became of a part: it was asked for and answered, and a block of each height that the answer holds
was sent. -/
structure Served (s : Transfer) (part : HeightRange) (bs : List Block) : Prop where
  asked : .blocks part 0 ∈ s.trail.asked
  heard : (part, .ok bs) ∈ s.trail.heard
  sent : ∀ b ∈ bs, ∃ c, .block c ∈ s.trail.sent ∧ c.height = b.height

/-- **A delivery that ended well has served every part.** -/
theorem Accounted.served {done : List Report} (h : Accounted f node range done s) {part : HeightRange}
    (hpart : part ∈ range.partsBy f.config.bigPage) : ∃ bs, s.Served part bs := by
  rw [← flatMap_segments, RangeFetcher.segments, ← h.pages] at hpart
  obtain ⟨seg, hseg, hpart⟩ := List.mem_flatMap.1 hpart
  obtain ⟨r, hr, rfl⟩ := List.mem_map.1 hseg
  have hparts := (h.complete r hr).gathered.parts
  rw [List.append_nil] at hparts
  obtain ⟨⟨_, reply⟩, hx, rfl⟩ := List.mem_map.1 (hparts.symm.subset hpart)
  obtain ⟨bs, rfl⟩ := (h.complete r hr).answered.1 _ hx
  refine ⟨bs, ?_, ?_, fun b hb => ?_⟩
  · rw [h.trail, Report.asked_trails]
    exact List.mem_flatMap.2 ⟨r, hr, List.mem_append_left _ (List.mem_map_of_mem hpart)⟩
  · rw [h.trail, Report.heard_trails]
    exact List.mem_flatMap.2 ⟨r, hr, hx⟩
  · have hreceived : b ∈ r.received :=
      RangeFetcher.mem_blocksOf.2 ⟨bs, List.mem_map_of_mem hx, hb⟩
    have hmentions : r.mentions b.height = true :=
      List.any_eq_true.2 ⟨b, hreceived, beq_self_eq_true _⟩
    have hcount : 0 < Payload.blocksAt b.height s.trail.sent := by
      rw [h.blocks]
      exact List.countP_pos_iff.2 ⟨r, hr, hmentions⟩
    obtain ⟨c, hc, hheight⟩ := List.countP_pos_iff.1 hcount
    exact ⟨c, Payload.mem_block.2 hc, beq_iff_eq.1 hheight⟩

/-- A block that was sent lies in the range, or it came with a reply to a question without an end. -/
theorem holds_or_newest (hs : Steps f node (start f (f.segments range)) s) (hnode : node.Bounded)
    {b : Block} (hb : .block b ∈ s.trail.sent) :
    range.Holds b.height ∨
      ∃ part ∈ range.partsBy f.config.bigPage, part.last = 0 ∧
        ∃ bs, (part, .ok bs) ∈ s.trail.heard ∧ b ∈ bs := by
  have htraced := traced_of_steps hs
  obtain ⟨⟨part, reply⟩, hx, bs, rfl, hbs⟩ := received_of_had (htraced.blocks b hb)
  obtain ⟨hreply, seg, hseg, hpart⟩ := htraced.heard _ hx
  have hmem : part ∈ range.partsBy f.config.bigPage := mem_partsBy hseg hpart
  by_cases hlast : part.last = 0
  · exact .inr ⟨part, hmem, hlast, bs, hx, hbs⟩
  · exact .inl (HeightRange.holds_of_mem_partsBy hmem (hnode part bs hlast hreply b hbs))

/-- Where height zero is alone, the newest blocks are asked for. -/
theorem newest_asked {outcome : Except WorkerError Unit} (h : range.ZeroAlone f.config.bigPage)
    (hs : Steps f node (start f (f.segments range)) s) (hended : s.stage = .ended outcome) :
    .blocks { range with last := 0 } 0 ∈ s.trail.asked := by
  obtain ⟨others, hsplit⟩ := HeightRange.split_zeroAlone h
  rw [RangeFetcher.segments, hsplit] at hs
  refine first_questions hs hended ?_
  rw [Segment.questions, Segment.ofPage, HeightRange.split_zero h.1]
  exact List.mem_cons_self

end Transfer

/-! ## A node with one block at the end of each range -/

/-- The last block of a range, or the newest one if the range has no end. -/
def endOf (newest : Height) (range : HeightRange) : BlocksReply :=
  if range.last = 0 then .ok [{ height := newest }]
  else if range.first ≤ range.last then .ok [{ height := range.last }]
  else .ok []

theorem endOf_ok (newest : Height) (range : HeightRange) : ∃ bs, endOf newest range = .ok bs := by
  rw [endOf]
  split
  · exact ⟨_, rfl⟩
  · split
    · exact ⟨_, rfl⟩
    · exact ⟨_, rfl⟩

theorem bounded_endOf (newest : Height) (search : SearchPage → SearchReply) :
    (Behavior.ofAnswers (endOf newest) search).Bounded := by
  intro part bs hlast hreply b hb
  have hreply' : .ok bs = endOf newest part := hreply
  rw [endOf, if_neg hlast] at hreply'
  split at hreply'
  · rename_i hle
    cases hreply'
    rw [List.mem_singleton.1 hb]
    exact ⟨hle, UInt64.le_refl _⟩
  · cases hreply'
    exact absurd hb List.not_mem_nil

/-! ## What a range brings -/

namespace RangeFetcher

/-- **Only height zero alone is asked for by accident.** Take a range and a configuration that are
accepted, whatever a node replies, in whatever order its replies and the moves of the pipeline come.

* All that is asked for are the parts of the range, without a limit, and a delivery that ends well has
  served each of them.
* If height zero is not a part of its own, all that is asked for ends somewhere. With a node that answers
  such questions only with heights inside, every block that is sent lies in the range.
* If height zero is alone, its part is the only one without an end, every delivery asks for it, and a block
  outside the range can only come with the reply for it.

What a fetcher does with its source is such a delivery. -/
theorem questions_bounded {σ : Type} [Clocked σ] (f : RangeFetcher σ) (c : WorkerConfig)
    (node : Behavior) (range : HeightRange) (hconfig : f.config = c.range)
    (hvalid : c.validate = .ok ()) (hrange : TaskRequest.checkRange range = .ok ()) :
    (∀ s, Transfer.Steps f node (Transfer.start f (f.segments range)) s →
      (∀ part limit, .blocks part limit ∈ s.trail.asked →
        limit = 0 ∧ part ∈ range.partsBy c.bigPage) ∧
      (s.stage = .ended (.ok ()) → ∀ part ∈ range.partsBy c.bigPage, ∃ bs, s.Served part bs)) ∧
    (¬range.ZeroAlone c.bigPage →
      ∀ s, Transfer.Steps f node (Transfer.start f (f.segments range)) s →
        (∀ part limit, .blocks part limit ∈ s.trail.asked → part.last ≠ 0) ∧
        (node.Bounded → ∀ b, .block b ∈ s.trail.sent → range.Holds b.height)) ∧
    (range.ZeroAlone c.bigPage →
      ∀ s, Transfer.Steps f node (Transfer.start f (f.segments range)) s →
        (∀ part limit, .blocks part limit ∈ s.trail.asked → part.last = 0 →
          part = { range with last := 0 }) ∧
        (∀ outcome, s.stage = .ended outcome → .blocks { range with last := 0 } 0 ∈ s.trail.asked) ∧
        (node.Bounded → ∀ b, .block b ∈ s.trail.sent → range.Holds b.height ∨
          ∃ bs, ({ range with last := 0 }, .ok bs) ∈ s.trail.heard ∧ b ∈ bs)) ∧
    (∀ (I : σ → Prop) (deadline : Deadline) (world : σ),
      f.source.Follows deadline node I → I world →
      ∃ s, Transfer.Steps f node (Transfer.start f (f.segments range)) s ∧ s.Over ∧
        s.stage = .ended (f.fetch range deadline world).1.outcome ∧
        s.trail.sent = (f.fetch range deadline world).1.payloads) := by
  have hpage : f.config.bigPage = c.bigPage := by rw [hconfig, WorkerConfig.range]
  have hlast := TaskRequest.last_ne_zero hrange
  have hne := WorkerConfig.bigPage_ne_zero hvalid
  have hasked : ∀ s, Transfer.Steps f node (Transfer.start f (f.segments range)) s →
      ∀ part limit, .blocks part limit ∈ s.trail.asked →
        limit = 0 ∧ part ∈ range.partsBy c.bigPage := by
    intro s hs part limit h
    obtain ⟨hlimit, seg, hseg, hpart⟩ := (Transfer.traced_of_steps hs).asked part limit h
    exact ⟨hlimit, hpage ▸ Transfer.mem_partsBy hseg hpart⟩
  refine ⟨fun s hs => ⟨hasked s hs, ?_⟩, fun hnone s hs => ⟨?_, ?_⟩,
    fun halone s hs => ⟨?_, ?_, ?_⟩, ?_⟩
  · intro hended part hpart
    obtain ⟨done, hdone⟩ := Transfer.accounted_of_ok hs hended
    exact hdone.served (hpage ▸ hpart)
  · intro part limit h hzero
    exact hnone (HeightRange.last_eq_zero hlast hne (hasked s hs part limit h).2 hzero).1
  · intro hnode b hb
    refine (Transfer.holds_or_newest hs hnode hb).resolve_right ?_
    rintro ⟨part, hpart, hzero, -⟩
    exact hnone (HeightRange.last_eq_zero hlast hne (hpage ▸ hpart) hzero).1
  · intro part limit h hzero
    exact (HeightRange.last_eq_zero hlast hne (hasked s hs part limit h).2 hzero).2
  · intro outcome hended
    exact Transfer.newest_asked (hpage ▸ halone) hs hended
  · intro hnode b hb
    refine (Transfer.holds_or_newest hs hnode hb).imp_right ?_
    rintro ⟨part, hpart, hzero, bs, hreply, hbs⟩
    rw [(HeightRange.last_eq_zero hlast hne (hpage ▸ hpart) hzero).2] at hreply
    exact ⟨bs, hreply, hbs⟩
  · intro I deadline world hf hworld
    exact f.fetch_steps hf world hworld range

/-- With large pages, a range may begin at height zero. -/
theorem questions_bounded_from_zero :
    let c : WorkerConfig := {}
    let range : HeightRange := { last := 40 }
    let f : RangeFetcher Stillness := { source := .ofAnswers (endOf 900) fun _ => .ok [], config := c.range }
    c.validate = .ok () ∧ TaskRequest.checkRange range = .ok () ∧
      ∀ b, .block b ∈ (f.fetch range none {}).1.payloads → range.Holds b.height := by
  intro c range f
  have hvalid : c.validate = .ok () := by decide
  have hf : f.source.Follows none (.ofAnswers (endOf 900) fun _ => .ok []) fun _ => True :=
    follows_ofAnswers (fun _ _ => rfl) (fun _ => rfl) none
  obtain ⟨-, hbounded, -, hfetch⟩ := f.questions_bounded c _ range rfl hvalid rfl
  obtain ⟨s, hs, -, -, hsent⟩ := hfetch _ none {} hf trivial
  refine ⟨hvalid, rfl, fun b hb => ?_⟩
  exact (hbounded (by decide) s hs).2 (bounded_endOf 900 _) b (hsent ▸ hb)

/-- **The newest blocks are asked for by accident.** The heights from 0 to 1, one by one: the first part is
height zero alone, and the node answers the question for it with its newest block, which is sent. -/
theorem newest_by_accident :
    let c : WorkerConfig := { bigPage := 1 }
    let range : HeightRange := { last := 1 }
    let node : Behavior := .ofAnswers (endOf 900) fun _ => .ok []
    let f : RangeFetcher Stillness := { source := .ofAnswers (endOf 900) fun _ => .ok [], config := c.range }
    c.validate = .ok () ∧ TaskRequest.checkRange range = .ok () ∧ node.Bounded ∧
      (∃ s, Transfer.Steps f node (Transfer.start f (f.segments range)) s ∧
        .blocks { range with last := 0 } 0 ∈ s.trail.asked) ∧
      ∃ b, .block b ∈ (f.fetch range none {}).1.payloads ∧ ¬range.Holds b.height := by
  intro c range node f
  have hf : f.source.Follows none node fun _ => True :=
    follows_ofAnswers (fun _ _ => rfl) (fun _ => rfl) none
  obtain ⟨s, hs, -, hended, hsent⟩ := f.fetch_steps hf {} trivial range
  have halone : range.ZeroAlone f.config.bigPage := by decide
  -- all questions are answered, so the delivery ends well and the newest block is sent
  obtain ⟨hheard, hfound⟩ := Transfer.replies_of_ended hs hended
  have hanswered : s.Answered := by
    refine ⟨fun x hx => ?_, fun x hx => ⟨_, hfound x hx⟩⟩
    obtain ⟨bs, hbs⟩ := endOf_ok 900 x.1
    exact ⟨bs, (hheard x hx).trans hbs⟩
  have hok := (Transfer.ok_iff_answered rfl hs hended).2 hanswered
  obtain ⟨done, hdone⟩ := Transfer.accounted_of_ok hs (hended.trans (congrArg _ hok))
  obtain ⟨bs, hserved⟩ := hdone.served (HeightRange.zero_mem_partsBy halone)
  have hbs : bs = [{ height := 900 }] := Except.ok.inj (hheard _ hserved.heard)
  obtain ⟨b, hb, hheight⟩ := hserved.sent { height := 900 } (hbs ▸ List.mem_cons_self)
  refine ⟨by decide, rfl, bounded_endOf 900 _, ⟨s, hs, hserved.asked⟩, b, hsent ▸ hb, ?_⟩
  rw [hheight]
  decide

end RangeFetcher

end ChainIndex
