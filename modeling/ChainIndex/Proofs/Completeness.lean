import ChainIndex.Proofs.BlockSets
import ChainIndex.Proofs.Fetching
import ChainIndex.Proofs.Heights
import ChainIndex.Task.Request

/-!
# What a delivery has delivered if it ended well

A delivery ends well if all its questions were answered, and only then (`ok_iff_answered`). What it has
sent are the blocks and transactions of these answers (`Accounted`), no more and no less:

* of each page, one block for each height that the replies for the page hold;
* each transaction that a search has found and the decoder accepts.

`success_accounts`: **success means that the answers were delivered.** A height that no reply holds is
missing without an error, and so is a transaction that cannot be decoded (`echo_succeeds`).
-/

namespace ChainIndex

open Pipeline (accepted rawsOf failuresOf pagesOf)

/-- How many blocks of a height are among some payloads. -/
def Payload.blocksAt (height : Height) (ps : List Payload) : Nat :=
  (ps.filterMap block?).countP (·.height == height)

variable {σ : Type}

namespace Report

/-- The blocks in the replies for a segment. -/
def received (r : Report) : List Block :=
  RangeFetcher.blocksOf (r.heard.map Prod.snd)

/-- Whether the replies for a segment hold a height. -/
def mentions (height : Height) (r : Report) : Bool :=
  r.received.any (·.height == height)

/-- The transactions that were found for a segment, as far as they can be decoded. -/
def decoded (f : RangeFetcher σ) (r : Report) : List Transaction :=
  (rawsOf r.found).filterMap (accepted (f.decodeWith r.set))

/-- All that was found for a segment can be decoded. -/
def Decodable (f : RangeFetcher σ) (r : Report) : Prop :=
  ∀ raw ∈ rawsOf r.found, ∃ t, f.decodeWith r.set raw = .ok t

/-- The replies for a segment hold the heights that were asked for, and no others. -/
def Full (r : Report) : Prop :=
  ∀ x ∈ r.heard, ∀ bs, x.2 = .ok bs → ∀ height, (∃ b ∈ bs, b.height = height) ↔ x.1.Holds height

variable {f : RangeFetcher σ} {node : Behavior} {r : Report} {page : HeightRange}

theorem Complete.blocks_eq (hr : r.Complete f node) (hseg : r.segment = .ofPage page) :
    r.sent.filterMap Payload.block? = (({} : BlockSet).extend r.received).blocks := by
  have hmerged := hr.merged
  rw [hseg] at hmerged
  obtain ⟨-, hset⟩ := RangeFetcher.merge_eq_ok.1 hmerged
  rw [hr.settled.blocks_eq, Report.blocks, hseg, RangeFetcher.selected_ofPage, hset]
  rfl

/-- **A height is sent once for a page whose replies hold it.** -/
theorem Complete.blocksAt (hr : r.Complete f node) (hseg : r.segment = .ofPage page)
    (height : Height) :
    Payload.blocksAt height r.sent = if r.mentions height then 1 else 0 := by
  have hordered : BlockSet.Ordered (({} : BlockSet).extend r.received).blocks :=
    BlockSet.extend_ordered _ List.Pairwise.nil
  rw [Payload.blocksAt, hr.blocks_eq hseg, hordered.countP_height, BlockSet.any_extend, mentions]

theorem Complete.answered (hr : r.Complete f node) :
    (∀ x ∈ r.heard, ∃ bs, x.2 = .ok bs) ∧ ∀ x ∈ r.found, ∃ raws, x.2 = .ok raws :=
  ⟨RangeFetcher.answered_of_merge hr.merged, Pipeline.failuresOf_eq_nil.1 hr.faultless⟩

/-- Replies that hold what was asked for hold the heights of the page. -/
theorem Complete.mentions_iff (hr : r.Complete f node) (hseg : r.segment = .ofPage page)
    (hfull : r.Full) (height : Height) : r.mentions height = true ↔ page.Holds height := by
  have hparts := hr.gathered.parts
  rw [hseg, List.append_nil] at hparts
  have hreceived : r.mentions height = true ↔ ∃ b ∈ r.received, b.height = height := by
    rw [mentions, List.any_eq_true]
    simp only [beq_iff_eq]
  rw [hreceived]
  constructor
  · rintro ⟨b, hb, hheight⟩
    obtain ⟨bs, hbs, hb⟩ := RangeFetcher.mem_blocksOf.1 hb
    obtain ⟨x, hx, hxbs⟩ := List.mem_map.1 hbs
    have hin := (hfull x hx bs hxbs height).1 ⟨b, hb, hheight⟩
    exact HeightRange.holds_of_mem_split (hparts.subset (List.mem_map_of_mem hx)) hin
  · intro hholds
    obtain ⟨part, hpart, hin⟩ := HeightRange.exists_mem_split hholds RangeFetcher.partSize
    obtain ⟨x, hx, rfl⟩ := List.mem_map.1 (hparts.symm.subset hpart)
    obtain ⟨bs, hbs⟩ := hr.answered.1 x hx
    obtain ⟨b, hb, hheight⟩ := (hfull x hx bs hbs height).2 hin
    exact ⟨b, RangeFetcher.mem_blocksOf.2 ⟨bs, hbs ▸ List.mem_map_of_mem hx, hb⟩, hheight⟩

theorem exists_page {done : List Report} {pages : List HeightRange}
    (h : done.map Report.segment = pages.map .ofPage) (hr : r ∈ done) :
    ∃ page ∈ pages, r.segment = .ofPage page := by
  have hmem : r.segment ∈ pages.map .ofPage := h ▸ List.mem_map_of_mem hr
  obtain ⟨page, hpage, hseg⟩ := List.mem_map.1 hmem
  exact ⟨page, hpage, hseg.symm⟩

theorem length_decoded_le (r : Report) (f : RangeFetcher σ) :
    (r.decoded f).length ≤ (rawsOf r.found).length :=
  List.length_filterMap_le _ _

theorem length_decoded_eq (r : Report) (f : RangeFetcher σ) :
    (r.decoded f).length = (rawsOf r.found).length ↔ r.Decodable f := by
  rw [decoded, List.filterMap_length_eq_length]
  refine forall₂_congr fun raw _ => ?_
  rw [accepted]
  rcases f.decodeWith r.set raw with e | t
  · simp [Except.toOption]
  · simp [Except.toOption]

/-- Reports as a whole lose no transaction exactly if none of them does. -/
theorem length_flatMap_decoded (f : RangeFetcher σ) (done : List Report) :
    (done.flatMap (decoded f)).length ≤ (rawsOf (done.flatMap Report.found)).length ∧
      ((done.flatMap (decoded f)).length = (rawsOf (done.flatMap Report.found)).length ↔
        ∀ r ∈ done, r.Decodable f) := by
  induction done with
  | nil => simp [rawsOf]
  | cons r done ih =>
    obtain ⟨hle, hiff⟩ := ih
    have hfirst := r.length_decoded_le f
    rw [List.flatMap_cons, List.flatMap_cons, Pipeline.rawsOf_append, List.length_append,
      List.length_append, List.forall_mem_cons, ← hiff, ← r.length_decoded_eq f]
    omega

end Report

namespace Transfer

/-- Every reply was an answer. -/
def Answered (s : Transfer) : Prop :=
  (∀ x ∈ s.trail.heard, ∃ bs, x.2 = .ok bs) ∧ ∀ x ∈ s.trail.found, ∃ raws, x.2 = .ok raws

/-- What a delivery of a range amounts to: each of its pages was delivered, which means that each part
of it and each search page of its blocks was asked for once and answered; and what was sent are the
blocks that were received, for each page one per height, and the transactions that were found and can
be decoded. -/
structure Accounted (f : RangeFetcher σ) (node : Behavior) (range : HeightRange) (done : List Report)
    (s : Transfer) : Prop where
  pages : done.map Report.segment = (range.split f.config.bigPage).map .ofPage
  complete : ∀ r ∈ done, r.Complete f node
  trail : s.trail = Report.trails done
  received : ∀ b ∈ s.trail.sent.filterMap Payload.block?, ∃ r ∈ done, b ∈ r.received
  blocks : ∀ height, Payload.blocksAt height s.trail.sent = done.countP (Report.mentions height)
  transactions : (s.trail.sent.filterMap Payload.transaction?).Perm (done.flatMap (Report.decoded f))
  streamed : ∀ x ∈ s.trail.sent, x.Streamed

variable {f : RangeFetcher σ} {node : Behavior} {range : HeightRange} {s : Transfer}

/-- Reports of pages are an account of the pages. -/
theorem accounted {done : List Report}
    (hpages : done.map Report.segment = (range.split f.config.bigPage).map .ofPage)
    (hcomplete : ∀ r ∈ done, r.Complete f node) (htrail : s.trail = Report.trails done) :
    Accounted f node range done s := by
  have hsent : s.trail.sent = done.flatMap Report.sent := by rw [htrail, Report.sent_trails]
  have hpage : ∀ r ∈ done, ∃ page, r.segment = .ofPage page := by
    intro r hr
    obtain ⟨page, -, hseg⟩ := Report.exists_page hpages hr
    exact ⟨page, hseg⟩
  refine ⟨hpages, hcomplete, htrail, ?_, ?_, ?_, ?_⟩
  · intro b hb
    rw [hsent, List.filterMap_flatMap] at hb
    obtain ⟨r, hr, hb⟩ := List.mem_flatMap.1 hb
    obtain ⟨page, hseg⟩ := hpage r hr
    rw [(hcomplete r hr).blocks_eq hseg] at hb
    rcases BlockSet.mem_of_mem_extend _ hb with hb | hb
    · exact absurd hb List.not_mem_nil
    · exact ⟨r, hr, hb⟩
  · intro height
    rw [hsent, Payload.blocksAt, List.filterMap_flatMap]
    -- the pages are counted one by one, whatever they are pages of
    clear hsent htrail hpages
    induction done with
    | nil => rfl
    | cons r done ih =>
      obtain ⟨page, hseg⟩ := hpage r List.mem_cons_self
      have hfirst := (hcomplete r List.mem_cons_self).blocksAt hseg height
      have hrest := ih (fun q hq => hcomplete q (List.mem_cons_of_mem _ hq))
        fun q hq => hpage q (List.mem_cons_of_mem _ hq)
      rw [Payload.blocksAt] at hfirst
      rw [List.flatMap_cons, List.countP_append, hrest, hfirst, List.countP_cons, Nat.add_comm]
  · rw [hsent, List.filterMap_flatMap]
    exact List.Perm.flatMap_left _ fun r hr => (hcomplete r hr).settled.transactions_perm
  · intro x hx
    rw [hsent] at hx
    obtain ⟨r, hr, hx⟩ := List.mem_flatMap.1 hx
    exact (hcomplete r hr).settled.streamed x hx

theorem Accounted.answered {done : List Report} (h : Accounted f node range done s) : s.Answered := by
  rw [Answered, h.trail, Report.heard_trails, Report.found_trails]
  constructor
  · intro x hx
    obtain ⟨r, hr, hx⟩ := List.mem_flatMap.1 hx
    exact (h.complete r hr).answered.1 x hx
  · intro x hx
    obtain ⟨r, hr, hx⟩ := List.mem_flatMap.1 hx
    exact (h.complete r hr).answered.2 x hx

/-- **A delivery that ended well is accounted for.** -/
theorem accounted_of_ok (hs : Steps f node (start f (f.segments range)) s)
    (hended : s.stage = .ended (.ok ())) : ∃ done, Accounted f node range done s := by
  have hstanding := (standing_start f node (f.segments range)).steps hs
  cases hstanding with
  | finished done hpast ht =>
    have hsegs := hpast.segments
    rw [List.append_nil] at hsegs
    exact ⟨done, accounted hsegs.symm hpast.complete (ht.trans (Trail.nil_append _))⟩
  | _ => cases hended

/-- **A delivery that is taken ends well if all replies were answers, and only then.** -/
theorem ok_iff_answered {outcome : Except WorkerError Unit} (hopen : f.isOpen = true)
    (hs : Steps f node (start f (f.segments range)) s) (hended : s.stage = .ended outcome) :
    outcome = .ok () ↔ s.Answered := by
  constructor
  · rintro rfl
    obtain ⟨done, hdone⟩ := accounted_of_ok hs hended
    exact hdone.answered
  · rintro ⟨hheard, hfound⟩
    have hstanding := (standing_start f node (f.segments range)).steps hs
    cases hstanding with
    | idle | gathering | streaming => cases hended
    | finished done hpast ht =>
      cases hended
      rfl
    | refused e done seg hpast arrived hgathered hmerge ht =>
      refine absurd (fun x hx => hheard x ?_) (RangeFetcher.unanswered_of_merge hmerge)
      rw [ht]
      exact List.mem_append_right _ hx
    | closed done seg hpast arrived hgathered set hmerge hclosed ht =>
      rw [hopen] at hclosed
      cases hclosed
    | failed done r hpast hgathered hmerge hsettled hfailures ht =>
      refine absurd (Pipeline.failuresOf_eq_nil.2 fun x hx => hfound x ?_) hfailures
      rw [ht, Report.trails_concat]
      exact List.mem_append_right _ (List.mem_append_right _ hx)

theorem Accounted.length_transactions {done : List Report} (h : Accounted f node range done s) :
    (s.trail.sent.filterMap Payload.transaction?).length = (rawsOf s.trail.found).length ↔
      ∀ r ∈ done, r.Decodable f := by
  rw [h.transactions.length_eq, h.trail, Report.found_trails]
  exact (Report.length_flatMap_decoded f done).2

/-- **If the replies hold what was asked for, every height is sent once.** -/
theorem Accounted.blocksAt_of_full {done : List Report} (h : Accounted f node range done s)
    (hfull : ∀ r ∈ done, r.Full) {height : Height} (hheight : range.Holds height) :
    Payload.blocksAt height s.trail.sent = 1 := by
  rw [h.blocks, ← HeightRange.countP_split hheight f.config.bigPage]
  have hpages := h.pages
  have hcomplete := h.complete
  clear h
  -- reports and pages side by side
  generalize range.split f.config.bigPage = pages at hpages ⊢
  induction done generalizing pages with
  | nil =>
    rw [List.map_nil, eq_comm, List.map_eq_nil_iff] at hpages
    rw [hpages]
    rfl
  | cons r done ih =>
    obtain ⟨page, pages, rfl, hseg, hsegs⟩ := List.map_eq_cons_iff.1 hpages.symm
    have hrest := ih (fun q hq => hfull q (List.mem_cons_of_mem _ hq))
      (fun q hq => hcomplete q (List.mem_cons_of_mem _ hq)) pages hsegs.symm
    have hfirst := (hcomplete r List.mem_cons_self).mentions_iff hseg.symm
      (hfull r List.mem_cons_self) height
    rw [List.countP_cons, List.countP_cons, hrest]
    simp only [hfirst, decide_eq_true_eq]

/-- Every reply that counts in the end is one that the node may give. -/
theorem replies_of_ended {segs : List Segment} {outcome : Except WorkerError Unit}
    (hs : Steps f node (start f segs) s) (hended : s.stage = .ended outcome) :
    (∀ x ∈ s.trail.heard, node.blocks x.1 0 x.2) ∧ ∀ x ∈ s.trail.found, node.search x.1 x.2 := by
  have hdone {done : List Report} (h : ∀ r ∈ done, r.Complete f node) :
      (∀ x ∈ (Report.trails done).heard, node.blocks x.1 0 x.2) ∧
        ∀ x ∈ (Report.trails done).found, node.search x.1 x.2 := by
    rw [Report.heard_trails, Report.found_trails]
    constructor
    · intro x hx
      obtain ⟨r, hr, hx⟩ := List.mem_flatMap.1 hx
      exact (h r hr).gathered.replies x hx
    · intro x hx
      obtain ⟨r, hr, hx⟩ := List.mem_flatMap.1 hx
      exact (h r hr).settled.answered x hx
  have hstanding := (standing_start f node segs).steps hs
  cases hstanding with
  | idle | gathering | streaming => cases hended
  | finished done hpast ht =>
    rw [ht]
    exact hdone hpast.complete
  | refused e done seg hpast arrived hgathered hmerge ht
  | closed done seg hpast arrived hgathered set hmerge hclosed ht =>
    rw [ht, Trail.nil_append]
    obtain ⟨hheard, hfound⟩ := hdone hpast.complete
    refine ⟨fun x hx => ?_, fun x hx => ?_⟩
    · exact (List.mem_append.1 hx).elim (hheard x) (hgathered.replies x)
    · exact (List.mem_append.1 hx).elim (hfound x) fun hx => absurd hx List.not_mem_nil
  | failed done r hpast hgathered hmerge hsettled hfailures ht =>
    rw [ht, Trail.nil_append, Report.trails_concat]
    obtain ⟨hheard, hfound⟩ := hdone hpast.complete
    refine ⟨fun x hx => ?_, fun x hx => ?_⟩
    · exact (List.mem_append.1 hx).elim (hheard x) (hgathered.replies x)
    · exact (List.mem_append.1 hx).elim (hfound x) (hsettled.answered x)

end Transfer

/-! ## A source that always says the same -/

section Echo

variable {bs : List Block} {raws : List RawTransaction}

/-- A node that gives the same answer to all questions of a kind. -/
def Behavior.echo (bs : List Block) (raws : List RawTransaction) : Behavior where
  blocks _ _ reply := reply = .ok bs
  search _ reply := reply = .ok raws

def Source.echo (bs : List Block) (raws : List RawTransaction) : Source Stillness :=
  .ofAnswers (fun _ => .ok bs) fun _ => .ok raws

theorem follows_echo (deadline : Deadline) :
    (Source.echo bs raws).Follows deadline (.echo bs raws) fun _ => True :=
  follows_ofAnswers (fun _ _ => rfl) (fun _ => rfl) deadline

variable {f : RangeFetcher σ} {range : HeightRange} {s : Transfer}

theorem Report.Complete.mentions_echo {r : Report} (hr : r.Complete f (.echo bs raws))
    {page : HeightRange} (hseg : r.segment = .ofPage page) (hpage : page.first ≤ page.last)
    (height : Height) : r.mentions height = bs.any (·.height == height) := by
  have hparts := hr.gathered.parts
  rw [hseg, List.append_nil] at hparts
  rw [Bool.eq_iff_iff, mentions, List.any_eq_true, List.any_eq_true]
  constructor
  · rintro ⟨b, hb, hheight⟩
    obtain ⟨bs', hbs', hb⟩ := RangeFetcher.mem_blocksOf.1 hb
    obtain ⟨x, hx, hxbs⟩ := List.mem_map.1 hbs'
    have hreply : x.2 = .ok bs := hr.gathered.replies x hx
    rw [hreply] at hxbs
    cases hxbs
    exact ⟨b, hb, hheight⟩
  · rintro ⟨b, hb, hheight⟩
    obtain ⟨part, hpart, -⟩ := HeightRange.exists_mem_split
      (⟨UInt64.le_refl _, hpage⟩ : page.Holds page.first) RangeFetcher.partSize
    obtain ⟨x, hx, -⟩ := List.mem_map.1 (hparts.symm.subset hpart)
    have hreply : x.2 = .ok bs := hr.gathered.replies x hx
    exact ⟨b, RangeFetcher.mem_blocksOf.2 ⟨bs, hreply ▸ List.mem_map_of_mem hx, hb⟩, hheight⟩

/-- Each height is sent once for each page, whether it was asked for or not. -/
theorem Transfer.Accounted.blocksAt_echo {done : List Report}
    (h : Accounted f (.echo bs raws) range done s) (height : Height) :
    Payload.blocksAt height s.trail.sent =
      if bs.any (·.height == height) then (range.split f.config.bigPage).length else 0 := by
  have hmentions : ∀ r ∈ done, r.mentions height = bs.any (·.height == height) := by
    intro r hr
    obtain ⟨page, hpage, hseg⟩ := Report.exists_page h.pages hr
    exact (h.complete r hr).mentions_echo hseg (HeightRange.mem_split hpage).2.1 height
  have hlength : done.length = (range.split f.config.bigPage).length := by
    have hpages := congrArg List.length h.pages
    rwa [List.length_map, List.length_map] at hpages
  rw [h.blocks, ← hlength]
  split
  · rename_i hany
    exact List.countP_eq_length.2 fun r hr => (hmentions r hr).trans hany
  · rename_i hnone
    exact List.countP_eq_zero.2 fun r hr hr' => hnone ((hmentions r hr).symm.trans hr')

theorem Transfer.Accounted.transactions_echo {done : List Report}
    (h : Accounted f (.echo bs raws) range done s)
    (hraws : ∀ raw ∈ raws, ∀ set, accepted (f.decodeWith set) raw = none) :
    s.trail.sent.filterMap Payload.transaction? = [] := by
  have hnone : done.flatMap (Report.decoded f) = [] := by
    rw [List.flatMap_eq_nil_iff]
    intro r hr
    rw [Report.decoded, List.filterMap_eq_nil_iff]
    intro raw hraw
    obtain ⟨x, hx, hraw⟩ := List.mem_flatMap.1 hraw
    have hreply : x.2 = .ok raws := (h.complete r hr).settled.answered x hx
    rw [hreply] at hraw
    exact hraws raw hraw r.set
  exact List.perm_nil.1 (hnone ▸ h.transactions)

end Echo

/-- A transaction whose gas is no number. -/
def RawTransaction.broken : RawTransaction :=
  { height := "1", execution := { gasWanted := "x" } }

/-- Gas comes first. -/
theorem Decoder.decode_of_gas (d : Decoder) {raw : RawTransaction} {e : DecodeError}
    (h : gasOf "gas_wanted" raw.execution.gasWanted = .error e) : d.decode raw = .error e := by
  simp only [decode, h]
  rfl

theorem Decoder.decode_broken (d : Decoder) :
    d.decode .broken = .error (.gas "gas_wanted" "x") := by
  have hword : Text.word64? (Text.trimmed "x") = none := by decide
  have hgas : gasOf "gas_wanted" "x" = .error (.gas "gas_wanted" "x") := by
    unfold gasOf
    simp only [hword]
  exact d.decode_of_gas hgas

theorem RangeFetcher.accepted_broken (f : RangeFetcher σ) (set : BlockSet) :
    accepted (f.decodeWith set) .broken = none := by
  have hdecode : f.decodeWith set .broken = .error (.gas "gas_wanted" "x") := by
    unfold decodeWith
    cases (Text.word64? (Text.trimmed RawTransaction.broken.height)).bind set.get? with
    | none => exact f.decoder.decode_broken
    | some b =>
      show f.decoder.decodeIn b .broken = _
      unfold Decoder.decodeIn
      rw [f.decoder.decode_broken]
      rfl
  exact Pipeline.accepted_error hdecode

/-! ## What success means -/

namespace RangeFetcher

/-- **Success means that the answers were delivered.** Whatever a node replies, and in whatever order
its replies and the moves of the pipeline come: a delivery of a range that ends well is accounted for
(`Accounted`); it ends well if all its replies were answers, and only then, as long as the receiver is
there. If the replies hold the heights that were asked for, every height of the range is sent once. No
transaction that was found is missing exactly if all of them can be decoded. What a fetcher does with
its source is such a delivery. -/
theorem success_accounts [Clocked σ] (f : RangeFetcher σ) (node : Behavior) (range : HeightRange) :
    (∀ s, Transfer.Steps f node (Transfer.start f (f.segments range)) s →
      s.stage = .ended (.ok ()) →
      s.Answered ∧ ∃ done, Transfer.Accounted f node range done s) ∧
    (∀ s outcome, f.isOpen = true → Transfer.Steps f node (Transfer.start f (f.segments range)) s →
      s.stage = .ended outcome → (outcome = .ok () ↔ s.Answered)) ∧
    (∀ s done, Transfer.Accounted f node range done s → (∀ r ∈ done, r.Full) →
      ∀ height, range.Holds height → Payload.blocksAt height s.trail.sent = 1) ∧
    (∀ s done, Transfer.Accounted f node range done s →
      ((s.trail.sent.filterMap Payload.transaction?).length = (rawsOf s.trail.found).length ↔
        ∀ r ∈ done, r.Decodable f)) ∧
    (∀ (deadline : Deadline) (world : σ),
      ∃ s, Transfer.Steps f (.ofSource f.source deadline) (Transfer.start f (f.segments range)) s ∧
        s.stage = .ended (f.fetch range deadline world).1.outcome ∧
        s.trail.sent = (f.fetch range deadline world).1.payloads) := by
  refine ⟨?_, ?_, ?_, ?_, ?_⟩
  · intro s hs hended
    obtain ⟨done, hdone⟩ := Transfer.accounted_of_ok hs hended
    exact ⟨hdone.answered, done, hdone⟩
  · intro s outcome hopen hs hended
    exact Transfer.ok_iff_answered hopen hs hended
  · intro s done hdone hfull height hheight
    exact hdone.blocksAt_of_full hfull hheight
  · intro s done hdone
    exact hdone.length_transactions
  · intro deadline world
    obtain ⟨s, hs, -, hended, hsent⟩ :=
      f.fetch_steps (follows_ofSource f.source deadline) world trivial range
    exact ⟨s, hs, hended, hsent⟩

end RangeFetcher

/-- **Success is not completeness.** Each question for blocks is answered with block 1, and each search
with a transaction whose gas is no number. Of the heights from 1 to 2, one by one, the first is sent
twice and the second is not, the transaction is left out, and the delivery ends well. -/
theorem echo_succeeds :
    let f : RangeFetcher Stillness :=
      { source := .echo [{ height := 1, transactionCount := 1 }] [.broken], config := { bigPage := 1 } }
    let d := (f.fetch { first := 1, last := 2 } none {}).1
    TaskRequest.checkRange { first := 1, last := 2 } = .ok () ∧ d.outcome = .ok () ∧
      Payload.blocksAt 1 d.payloads = 2 ∧ Payload.blocksAt 2 d.payloads = 0 ∧
      d.payloads.filterMap Payload.transaction? = [] := by
  intro f d
  obtain ⟨s, hs, -, hended, hsent⟩ := f.fetch_steps (follows_echo none) {} trivial
    { first := 1, last := 2 }
  obtain ⟨hheard, hfound⟩ := Transfer.replies_of_ended hs hended
  have hok : d.outcome = .ok () := (Transfer.ok_iff_answered rfl hs hended).2
    ⟨fun x hx => ⟨_, hheard x hx⟩, fun x hx => ⟨_, hfound x hx⟩⟩
  obtain ⟨done, hdone⟩ := Transfer.accounted_of_ok hs (hended.trans (congrArg _ hok))
  have hsplit : (({ first := 1, last := 2 } : HeightRange).split f.config.bigPage).length = 2 := by
    simp [HeightRange.split, HeightRange.cuts, f]
  refine ⟨rfl, hok, ?_, ?_, ?_⟩
  · show Payload.blocksAt 1 d.payloads = 2
    rw [← hsent, hdone.blocksAt_echo, hsplit]
    rfl
  · show Payload.blocksAt 2 d.payloads = 0
    rw [← hsent, hdone.blocksAt_echo]
    rfl
  · show d.payloads.filterMap Payload.transaction? = []
    rw [← hsent]
    refine hdone.transactions_echo fun raw hraw set => ?_
    rw [List.mem_singleton.1 hraw]
    exact f.accepted_broken set

end ChainIndex
