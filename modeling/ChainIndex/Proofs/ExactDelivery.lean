import ChainIndex.Proofs.BlockSets
import ChainIndex.Proofs.Decimals
import ChainIndex.Proofs.Fetching
import ChainIndex.Proofs.Heights

/-!
# A range of a fixed chain is delivered exactly

A node that knows a fixed chain (`Chain`) replies consistently (`Chain.behavior`). Cutting a range into
pages and parts, and the transactions of a block into search pages, neither loses nor doubles anything:

* `delivered_page`: what is delivered of one page.
* `exact_of_complete`: what is delivered of all of them.
* `exact_delivery`: **every delivery ends well with exactly the blocks and transactions of the range**.
-/

namespace ChainIndex

open Pipeline (accepted rawsOf failuresOf pagesOf)

/-- What a page of a hundred holds of the transactions of a height. -/
def SearchPage.slice (page : SearchPage) (txs : List RawTransaction) : List RawTransaction :=
  (txs.drop (100 * (page.page.toNat - 1))).take 100

/-- A fixed chain: one block per height, and the transactions of each block. -/
structure Chain where
  blocks : List Block
  transactions : Height → List RawTransaction
  heights : (blocks.map Block.height).Nodup
  counted : ∀ b ∈ blocks, (transactions b.height).length = b.transactionCount.toNat
  /-- Search pages have 32-bit numbers. -/
  bounded : ∀ b ∈ blocks, b.transactionCount.toNat < 100 * (UInt32.size - 1)
  numbered : ∀ b ∈ blocks, ∀ raw ∈ transactions b.height, raw.height = toString b.height

namespace Chain

variable (c : Chain)

/-- The blocks of a range. -/
def within (range : HeightRange) : List Block :=
  c.blocks.filter fun b => range.Holds b.height

/-- The transactions on a search page. -/
def slice (page : SearchPage) : List RawTransaction :=
  ((c.transactions page.height).drop (100 * (page.page.toNat - 1))).take 100

/-- What a node may reply that knows the chain: the blocks of a range in any order, and the
transactions on a page of a hundred. Nothing is promised for questions of another kind. -/
def behavior : Behavior where
  blocks range _ reply := 1 ≤ range.last → ∃ bs, reply = .ok bs ∧ ∀ b, b ∈ bs ↔ b ∈ c.within range
  search page reply := page.perPage = 100 → 1 ≤ page.page → reply = .ok (c.slice page)

theorem behavior_total : c.behavior.Total where
  blocks range _ := ⟨.ok (c.within range), fun _ => ⟨_, rfl, fun _ => Iff.rfl⟩⟩
  search page := ⟨.ok (c.slice page), fun _ _ => rfl⟩

theorem mem_within {range : HeightRange} {b : Block} :
    b ∈ c.within range ↔ b ∈ c.blocks ∧ range.Holds b.height := by
  rw [within, List.mem_filter, decide_eq_true_eq]

theorem eq_of_height {a b : Block} (ha : a ∈ c.blocks) (hb : b ∈ c.blocks)
    (h : a.height = b.height) : a = b :=
  List.inj_on_of_nodup_map c.heights ha hb h

/-! ## Search pages -/

theorem flatMap_slices {α : Type} (xs : List α) (k n : Nat) :
    (List.range n).flatMap (fun i => (xs.drop (k * i)).take k) = xs.take (k * n) := by
  induction n with
  | zero => simp
  | succ n ih =>
    rw [List.range_succ, List.flatMap_append, ih, List.flatMap_singleton, Nat.mul_succ, List.take_add]

theorem page_toNat {n i : Nat} (hn : n ≤ 100 * (UInt32.size - 1))
    (hi : i < (n + (100 - 1)) / 100) : (UInt32.ofNat (i + 1)).toNat = i + 1 := by
  have hlt : i + 1 < UInt32.size := by omega
  exact UInt32.toNat_ofNat_of_lt' hlt

/-- The pages of a height name it, and each holds at most a hundred. -/
theorem mem_ofHeight {height : Height} {count : UInt64} {page : SearchPage}
    (h : page ∈ SearchPage.ofHeight height count) :
    page.height = height ∧ page.perPage = 100 ∧
      (count.toNat ≤ 100 * (UInt32.size - 1) → 1 ≤ page.page) := by
  obtain ⟨i, hi, rfl⟩ := List.mem_map.1 h
  refine ⟨rfl, rfl, fun hbounded => ?_⟩
  have hpage := page_toNat hbounded (List.mem_range.1 hi)
  rw [UInt32.le_iff_toNat_le]
  show 1 ≤ (UInt32.ofNat (i + 1)).toNat
  omega

/-- The pages of a height hold its first transactions, as many as fit on them. -/
theorem slices_take {count : UInt64} (hbounded : count.toNat ≤ 100 * (UInt32.size - 1))
    (height : Height) (txs : List RawTransaction) :
    (SearchPage.ofHeight height count).flatMap (fun page => page.slice txs) =
      txs.take (100 * ((count.toNat + (100 - 1)) / 100)) := by
  rw [SearchPage.ofHeight, List.flatMap_map, ← flatMap_slices]
  refine List.flatMap_congr fun i hi => ?_
  have hpage := page_toNat hbounded (List.mem_range.1 hi)
  show (txs.drop (100 * ((UInt32.ofNat (i + 1)).toNat - 1))).take 100 = _
  rw [hpage, Nat.add_sub_cancel]

/-- **The pages of a block hold its transactions**, each once. -/
theorem ofHeight_slices {b : Block} (hb : b ∈ c.blocks) :
    (SearchPage.ofHeight b.height b.transactionCount).flatMap c.slice = c.transactions b.height := by
  have hslices : ∀ page ∈ SearchPage.ofHeight b.height b.transactionCount,
      c.slice page = page.slice (c.transactions b.height) := by
    intro page hpage
    rw [← (mem_ofHeight hpage).1]
    rfl
  rw [List.flatMap_congr hslices, slices_take (Nat.le_of_lt (c.bounded b hb)), List.take_of_length_le]
  rw [c.counted b hb]
  omega

/-! ## One page -/

section Page

variable {c} {σ : Type} {f : RangeFetcher σ} {r : Report} {page : HeightRange}

/-- Replies for the parts of a page hold the blocks of the page. -/
theorem mem_blocksOf_heard {arrived : List (HeightRange × BlocksReply)}
    (hgathered : (Segment.ofPage page).Gathered c.behavior [] arrived) (hfirst : 1 ≤ page.first)
    (b : Block) : b ∈ RangeFetcher.blocksOf (arrived.map Prod.snd) ↔ b ∈ c.within page := by
  have hparts := hgathered.parts
  rw [List.append_nil] at hparts
  have hreply : ∀ x ∈ arrived, ∃ bs, x.2 = .ok bs ∧ ∀ b, b ∈ bs ↔ b ∈ c.within x.1 := by
    intro x hx
    have hpart : x.1 ∈ page.split RangeFetcher.partSize :=
      hparts.subset (List.mem_map_of_mem hx)
    obtain ⟨hle, hle', -⟩ := HeightRange.mem_split hpart
    exact hgathered.replies x hx (UInt64.le_trans hfirst (UInt64.le_trans hle hle'))
  rw [RangeFetcher.mem_blocksOf]
  constructor
  · rintro ⟨bs, hbs, hb⟩
    obtain ⟨x, hx, hxbs⟩ := List.mem_map.1 hbs
    obtain ⟨bs', hbs', hmem⟩ := hreply x hx
    rw [hxbs] at hbs'
    cases hbs'
    obtain ⟨hchain, hholds⟩ := c.mem_within.1 ((hmem b).1 hb)
    have hpart : x.1 ∈ page.split RangeFetcher.partSize :=
      hparts.subset (List.mem_map_of_mem hx)
    exact c.mem_within.2 ⟨hchain, HeightRange.holds_of_mem_split hpart hholds⟩
  · intro hb
    obtain ⟨hchain, hholds⟩ := c.mem_within.1 hb
    obtain ⟨part, hpart, hin⟩ := HeightRange.exists_mem_split hholds RangeFetcher.partSize
    obtain ⟨x, hx, rfl⟩ := List.mem_map.1 (hparts.symm.subset hpart)
    obtain ⟨bs, hbs, hmem⟩ := hreply x hx
    exact ⟨bs, List.mem_map.2 ⟨x, hx, hbs⟩, (hmem b).2 (c.mem_within.2 ⟨hchain, hin⟩)⟩

/-- A page of the chain can be had. -/
theorem errorsOf_heard {arrived : List (HeightRange × BlocksReply)}
    (hgathered : (Segment.ofPage page).Gathered c.behavior [] arrived) (hfirst : 1 ≤ page.first) :
    RangeFetcher.errorsOf (arrived.map Prod.snd) = [] := by
  have hparts := hgathered.parts
  rw [List.append_nil] at hparts
  rw [RangeFetcher.errorsOf_arrived]
  intro x hx
  have hpart : x.1 ∈ page.split RangeFetcher.partSize := hparts.subset (List.mem_map_of_mem hx)
  obtain ⟨hle, hle', -⟩ := HeightRange.mem_split hpart
  obtain ⟨bs, hbs, -⟩ :=
    hgathered.replies x hx (UInt64.le_trans hfirst (UInt64.le_trans hle hle'))
  exact ⟨bs, hbs⟩

/-- The merged blocks of a page are those of the chain, in the order of their heights. -/
theorem merged_page {arrived : List (HeightRange × BlocksReply)} {set : BlockSet}
    (hgathered : (Segment.ofPage page).Gathered c.behavior [] arrived) (hfirst : 1 ≤ page.first)
    (hmerge : RangeFetcher.merge {} (arrived.map Prod.snd) = .ok set) :
    BlockSet.Ordered set.blocks ∧ ∀ b, b ∈ set.blocks ↔ b ∈ c.within page := by
  obtain ⟨-, rfl⟩ := RangeFetcher.merge_eq_ok.1 hmerge
  have hmem := mem_blocksOf_heard hgathered hfirst
  refine ⟨BlockSet.extend_ordered _ List.Pairwise.nil, fun b => ⟨fun hb => ?_, fun hb => ?_⟩⟩
  · rcases BlockSet.mem_of_mem_extend _ hb with hb | hb
    · exact absurd hb List.not_mem_nil
    · exact (hmem b).1 hb
  -- the set holds a block of this height, and the chain has only one
  · obtain ⟨b', hb', hheight⟩ := BlockSet.exists_mem_extend {} ((hmem b).2 hb)
    rcases BlockSet.mem_of_mem_extend _ hb' with hnil | hin
    · exact absurd hnil List.not_mem_nil
    · have hchain' := (c.mem_within.1 ((hmem b').1 hin)).1
      rw [c.eq_of_height hchain' (c.mem_within.1 hb).1 hheight] at hb'
      exact hb'

/-- The searches for known blocks are answered with what the chain holds. -/
theorem reply_found {bs : List Block} (hbs : ∀ b ∈ bs, b ∈ c.blocks)
    {found : List (SearchPage × SearchReply)} (hfound : (found.map Prod.fst).Perm (pagesOf bs))
    (hreplies : ∀ x ∈ found, c.behavior.search x.1 x.2) :
    ∀ x ∈ found, x.2 = .ok (c.slice x.1) := by
  intro x hx
  have hpage : x.1 ∈ pagesOf bs := hfound.subset (List.mem_map_of_mem hx)
  obtain ⟨b, hb, hpage⟩ := List.mem_flatMap.1 hpage
  obtain ⟨-, hsize, hone⟩ := mem_ofHeight hpage
  exact hreplies x hx hsize (hone (Nat.le_of_lt (c.bounded b (hbs b hb))))

/-- The replies to the searches of some blocks hold their transactions. -/
theorem raws_found {bs : List Block} (hbs : ∀ b ∈ bs, b ∈ c.blocks)
    {found : List (SearchPage × SearchReply)} (hfound : (found.map Prod.fst).Perm (pagesOf bs))
    (hreplies : ∀ x ∈ found, c.behavior.search x.1 x.2) :
    (rawsOf found).Perm (bs.flatMap fun b => c.transactions b.height) ∧ failuresOf found = [] := by
  have hok := reply_found hbs hfound hreplies
  constructor
  · have hraws : rawsOf found = (found.map Prod.fst).flatMap c.slice := by
      rw [rawsOf, List.flatMap_map]
      refine List.flatMap_congr fun x hx => ?_
      rw [hok x hx]
      rfl
    have hpages : (pagesOf bs).flatMap c.slice = bs.flatMap fun b => c.transactions b.height := by
      rw [pagesOf, List.flatMap_assoc]
      exact List.flatMap_congr fun b hb => c.ofHeight_slices (hbs b hb)
    rw [hraws, ← hpages]
    exact hfound.flatMap_right _
  · exact Pipeline.failuresOf_eq_nil.2 fun x hx => ⟨_, hok x hx⟩

/-- A transaction of a known block is decoded with its block. -/
theorem accepted_eq {set : BlockSet} (hset : BlockSet.Ordered set.blocks) {b : Block}
    (hb : b ∈ set.blocks) (hchain : b ∈ c.blocks) {raw : RawTransaction}
    (hraw : raw ∈ c.transactions b.height) :
    accepted (f.decodeWith set) raw = accepted (f.decoder.decodeIn b) raw := by
  have hget : (Text.word64? (Text.trimmed raw.height)).bind set.get? = some b := by
    rw [c.numbered b hchain raw hraw, Text.word64?_toString]
    exact BlockSet.get?_of_mem hset hb
  have hdecode : f.decodeWith set raw = f.decoder.decodeIn b raw := by
    unfold RangeFetcher.decodeWith
    rw [hget]
  rw [accepted, accepted, hdecode]

/-- The transactions of a block that can be decoded. -/
def decodable (c : Chain) (d : Decoder) (b : Block) : List Transaction :=
  (c.transactions b.height).filterMap (accepted (d.decodeIn b))

/-- A transaction of a block that was sent. -/
def Due (c : Chain) (d : Decoder) (sent : List Payload) (t : Transaction) : Prop :=
  ∃ b, .block b ∈ sent ∧ t ∈ c.decodable d b

/-- What a search for a block finds are transactions of the block. -/
theorem due_of_settled {set : BlockSet} (hset : BlockSet.Ordered set.blocks)
    (hsub : ∀ b ∈ set.blocks, b ∈ c.blocks) {found : List (SearchPage × SearchReply)}
    {sent : List Payload} (hsettled : Pipeline.Settled (f.decodeWith set) c.behavior.search set.blocks
      (pagesOf set.blocks) found sent) :
    Payload.Announced (c.Due f.decoder) sent := by
  refine hsettled.announced.imp fun before t hbefore hdue => ?_
  obtain ⟨b, hb, x, hx, hpage, raw, hraw, haccepted⟩ := hdue
  have hmem : b ∈ set.blocks := by
    rw [← hsettled.blocks_eq]
    exact List.mem_filterMap.2 ⟨.block b, hbefore.subset hb, rfl⟩
  have hreply := reply_found hsub hsettled.found_perm hsettled.answered x hx
  rw [hreply] at hraw
  have hheight : x.1.height = b.height := by
    obtain ⟨i, -, hi⟩ := List.mem_map.1 hpage
    rw [← hi]
  have hin : raw ∈ c.transactions b.height := by
    rw [← hheight]
    exact List.drop_subset _ _ (List.take_subset _ _ hraw)
  rw [accepted_eq hset hmem (hsub b hmem) hin] at haccepted
  exact ⟨b, hb, List.mem_filterMap.2 ⟨raw, hin, haccepted⟩⟩

/-- **What is delivered of a page** of the chain. -/
theorem delivered_page (hr : r.Complete f c.behavior) (hseg : r.segment = .ofPage page)
    (hfirst : 1 ≤ page.first) :
    BlockSet.Ordered (r.sent.filterMap Payload.block?) ∧
      (∀ b, b ∈ r.sent.filterMap Payload.block? ↔ b ∈ c.within page) ∧
      (r.sent.filterMap Payload.transaction?).Perm
        ((r.sent.filterMap Payload.block?).flatMap (c.decodable f.decoder)) ∧
      Payload.Announced (c.Due f.decoder) r.sent := by
  have hmerged := hr.merged
  have hgathered := hr.gathered
  rw [hseg] at hmerged hgathered
  obtain ⟨hordered, hmem⟩ := merged_page hgathered hfirst hmerged
  have hset : r.blocks = r.set.blocks := by
    rw [Report.blocks, hseg, RangeFetcher.selected_ofPage]
  have hsettled := hr.settled
  rw [hset] at hsettled
  have hsub : ∀ b ∈ r.set.blocks, b ∈ c.blocks := fun b hb => (c.mem_within.1 ((hmem b).1 hb)).1
  rw [hsettled.blocks_eq]
  refine ⟨hordered, hmem, hsettled.transactions_perm.trans ?_, due_of_settled hordered hsub hsettled⟩
  obtain ⟨hraws, -⟩ := raws_found hsub hsettled.found_perm hsettled.answered
  refine (hraws.filterMap _).trans (List.Perm.of_eq ?_)
  rw [List.filterMap_flatMap]
  refine List.flatMap_congr fun b hb => List.filterMap_congr fun raw hraw => ?_
  exact accepted_eq hordered hb (hsub b hb) hraw

/-! ## All pages of a range -/

/-- What is delivered of several pages, one after the other. -/
theorem delivered_pages {pages : List HeightRange} :
    ∀ {done : List Report}, done.map Report.segment = pages.map Segment.ofPage →
      (∀ r ∈ done, r.Complete f c.behavior) → (∀ page ∈ pages, 1 ≤ page.first) →
      (pages.Pairwise fun a b => a.last < b.first) →
      BlockSet.Ordered ((done.flatMap Report.sent).filterMap Payload.block?) ∧
        (∀ b, b ∈ (done.flatMap Report.sent).filterMap Payload.block? ↔
          ∃ page ∈ pages, b ∈ c.within page) ∧
        ((done.flatMap Report.sent).filterMap Payload.transaction?).Perm
          (((done.flatMap Report.sent).filterMap Payload.block?).flatMap
            (c.decodable f.decoder)) ∧
        Payload.Announced (c.Due f.decoder) (done.flatMap Report.sent) := by
  induction pages with
  | nil =>
    intro done hsegs _ _ _
    rw [List.map_nil, List.map_eq_nil_iff] at hsegs
    subst hsegs
    exact ⟨List.Pairwise.nil, fun b => by simp, List.Perm.refl _, Payload.announced_nil⟩
  | cons page pages ih =>
    intro done hsegs hcomplete hfirst hpairwise
    obtain ⟨r, done, rfl, hseg, hsegs⟩ := List.map_eq_cons_iff.1 hsegs
    obtain ⟨hbefore, hpairwise⟩ := List.pairwise_cons.1 hpairwise
    obtain ⟨hordered, hmem, htransactions, hannounced⟩ :=
      delivered_page (hcomplete r List.mem_cons_self) hseg (hfirst page List.mem_cons_self)
    obtain ⟨hordered', hmem', htransactions', hannounced'⟩ := ih hsegs
      (fun q hq => hcomplete q (List.mem_cons_of_mem _ hq))
      (fun q hq => hfirst q (List.mem_cons_of_mem _ hq)) hpairwise
    rw [List.flatMap_cons, List.filterMap_append, List.filterMap_append, List.flatMap_append]
    refine ⟨?_, fun b => ?_, htransactions.append htransactions', ?_⟩
    · refine List.pairwise_append.2 ⟨hordered, hordered', fun a ha b hb => ?_⟩
      obtain ⟨q, hq, hbq⟩ := (hmem' b).1 hb
      have ha := (c.mem_within.1 ((hmem a).1 ha)).2.2
      have hb := (c.mem_within.1 hbq).2.1
      exact UInt64.lt_of_le_of_lt ha (UInt64.lt_of_lt_of_le (hbefore q hq) hb)
    · rw [List.mem_append, hmem, hmem']
      simp only [List.mem_cons, exists_eq_or_imp]
    · refine hannounced.append hannounced' fun before t hdue => ?_
      obtain ⟨b, hb, ht⟩ := hdue
      exact ⟨b, List.mem_append_right _ hb, ht⟩

/-- Exactly what a range of a chain holds, the blocks in the order of their heights and each
transaction after its block. -/
structure Exact (c : Chain) (d : Decoder) (range : HeightRange) (sent : List Payload) : Prop where
  payloads : sent.Perm ((c.within range).map .block ++
    ((c.within range).flatMap (c.decodable d)).map .transaction)
  ordered : BlockSet.Ordered (sent.filterMap Payload.block?)
  announced : Payload.Announced (c.Due d) sent

/-- **A range whose pages were all delivered was delivered exactly.** -/
theorem exact_of_complete {range : HeightRange} (hfirst : 1 ≤ range.first) {done : List Report}
    (hsegs : done.map Report.segment = f.segments range)
    (hcomplete : ∀ r ∈ done, r.Complete f c.behavior) :
    c.Exact f.decoder range (done.flatMap Report.sent) := by
  obtain ⟨hordered, hmem, htransactions, hannounced⟩ := delivered_pages hsegs hcomplete
    (fun page hpage => UInt64.le_trans hfirst (HeightRange.mem_split hpage).1)
    (HeightRange.split_pairwise range f.config.bigPage)
  have hstreamed : ∀ x ∈ done.flatMap Report.sent, x.Streamed := by
    intro x hx
    obtain ⟨r, hr, hxr⟩ := List.mem_flatMap.1 hx
    exact (hcomplete r hr).settled.streamed x hxr
  have hblocks : ((done.flatMap Report.sent).filterMap Payload.block?).Perm (c.within range) := by
    have hnodup : (c.within range).Nodup := (List.Nodup.of_map _ c.heights).filter _
    -- both hold each block once, so it is enough that they hold the same ones
    rw [List.perm_ext_iff_of_nodup hordered.nodup hnodup]
    intro b
    rw [hmem b]
    constructor
    · rintro ⟨page, hpage, hb⟩
      obtain ⟨hchain, hholds⟩ := c.mem_within.1 hb
      exact c.mem_within.2 ⟨hchain, HeightRange.holds_of_mem_split hpage hholds⟩
    · intro hb
      obtain ⟨hchain, hholds⟩ := c.mem_within.1 hb
      obtain ⟨page, hpage, hin⟩ := HeightRange.exists_mem_split hholds f.config.bigPage
      exact ⟨page, hpage, c.mem_within.2 ⟨hchain, hin⟩⟩
  refine ⟨(Payload.streamed_perm hstreamed).trans ?_, hordered, hannounced⟩
  exact (hblocks.map _).append ((htransactions.trans (hblocks.flatMap_right _)).map _)

/-- The delivery of a range of the chain can only end well. -/
theorem ended_well {range : HeightRange} (hfirst : 1 ≤ range.first) (hopen : f.isOpen = true)
    {s : Transfer} {outcome : Except WorkerError Unit}
    (hs : Transfer.Steps f c.behavior (Transfer.start f (f.segments range)) s)
    (hended : s.stage = .ended outcome) :
    outcome = .ok () ∧ c.Exact f.decoder range s.trail.sent := by
  have hstanding := (Transfer.standing_start f c.behavior (f.segments range)).steps hs
  have hpage {done : List Report} {seg : Segment} {left : List Segment}
      (hpast : Transfer.Past f c.behavior (f.segments range) done (seg :: left)) :
      ∃ page, seg = .ofPage page ∧ 1 ≤ page.first := by
    have hmem : seg ∈ f.segments range := by
      rw [hpast.segments]
      exact List.mem_append_right _ List.mem_cons_self
    obtain ⟨page, hpage, rfl⟩ := List.mem_map.1 hmem
    exact ⟨page, rfl, UInt64.le_trans hfirst (HeightRange.mem_split hpage).1⟩
  cases hstanding with
  | idle | gathering | streaming => cases hended
  | finished done hpast ht =>
    cases hended
    have hsegs := hpast.segments
    rw [List.append_nil] at hsegs
    refine ⟨rfl, ?_⟩
    rw [ht, Trail.nil_append, Report.sent_trails]
    exact exact_of_complete hfirst hsegs.symm hpast.complete
  | refused e done seg hpast arrived hgathered hmerge ht =>
    obtain ⟨page, rfl, hone⟩ := hpage hpast
    -- the chain answers for every part and every search page, so nothing can fail
    exact absurd (errorsOf_heard hgathered hone) (RangeFetcher.merge_eq_error.1 hmerge).1
  | closed done seg hpast arrived hgathered set hmerge hclosed ht =>
    rw [hopen] at hclosed
    cases hclosed
  | failed done r hpast hgathered hmerge hsettled hfailures ht =>
    obtain ⟨page, hseg, hone⟩ := hpage hpast
    rw [hseg] at hgathered hmerge
    obtain ⟨-, hmem⟩ := merged_page hgathered hone hmerge
    have hset : r.blocks = r.set.blocks := by
      rw [Report.blocks, hseg, RangeFetcher.selected_ofPage]
    rw [hset] at hsettled
    exact absurd (raws_found (fun b hb => (c.mem_within.1 ((hmem b).1 hb)).1)
      hsettled.found_perm hsettled.answered).2 hfailures

end Page

end Chain

/-! ## A source that knows a chain -/

namespace Chain

def source (c : Chain) : Source Stillness :=
  .ofAnswers (fun range => .ok (c.within range)) fun page => .ok (c.slice page)

theorem follows_source (c : Chain) (deadline : Deadline) :
    c.source.Follows deadline c.behavior fun _ => True :=
  follows_ofAnswers (fun _ _ _ => ⟨_, rfl, fun _ => Iff.rfl⟩) (fun _ _ _ => rfl) deadline

end Chain

/-- **Exact delivery.** However replies, searches and the decoder are interleaved: the delivery of a
range of the chain always ends, and ends well with exactly the blocks of the range, in the order of
their heights, and those of their transactions that can be decoded, each after its block. So does
whatever a fetcher does with a source that knows the chain. -/
theorem exact_delivery {σ : Type} [Clocked σ] (c : Chain) (f : RangeFetcher σ) (range : HeightRange)
    (hfirst : 1 ≤ range.first) (hopen : f.isOpen = true) :
    Ends (Transfer.Step f c.behavior)
        (fun s => s.Over ∧ s.stage = .ended (.ok ()) ∧
          c.Exact f.decoder range s.pipeline.delivered)
        (Transfer.start f (f.segments range)) ∧
      ∀ (I : σ → Prop) (deadline : Deadline) (world : σ),
        f.source.Follows deadline c.behavior I → I world →
        (f.fetch range deadline world).1.outcome = .ok () ∧
          c.Exact f.decoder range (f.fetch range deadline world).1.payloads := by
  constructor
  · refine (Transfer.ends_of_kept c.behavior_total (Transfer.kept_start f _)).imp ?_
    rintro s ⟨hover, hsteps⟩
    obtain ⟨outcome, hended⟩ := hover.ended
    obtain ⟨rfl, hexact⟩ := Chain.ended_well hfirst hopen hsteps hended
    exact ⟨hover, hended, hover.delivered ▸ hexact⟩
  · intro I deadline world hf hworld
    obtain ⟨s, hsteps, -, hended, hsent⟩ := f.fetch_steps hf world hworld range
    obtain ⟨houtcome, hexact⟩ := Chain.ended_well hfirst hopen hsteps hended
    exact ⟨houtcome, hsent ▸ hexact⟩

/-- A chain of three blocks, the second of which holds one transaction. -/
def Chain.three : Chain where
  blocks := [{ height := 3 }, { height := 1 }, { height := 2, transactionCount := 1 }]
  transactions height := if height = 2 then [{ height := "2" }] else []
  heights := by decide
  counted := by decide
  bounded := by decide
  numbered := by decide

theorem exact_delivery_three :
    let f : RangeFetcher Stillness := { source := Chain.three.source, config := { bigPage := 2 } }
    (1 : Height) ≤ 1 ∧ f.isOpen = true ∧ (f.fetch { first := 1, last := 3 } none {}).1.outcome = .ok () ∧
      Chain.three.Exact f.decoder { first := 1, last := 3 }
        (f.fetch { first := 1, last := 3 } none {}).1.payloads := by
  intro f
  have hexact := (exact_delivery Chain.three f { first := 1, last := 3 } (by decide) rfl).2
    (fun _ => True) none {} (Chain.three.follows_source none) trivial
  exact ⟨by decide, rfl, hexact⟩

end ChainIndex
