import ChainIndex.Proofs.ConfirmedHeights
import ChainIndex.Proofs.SearchFailures

/-!
# The pages that are searched

A search names a page of a hundred transactions by a 32-bit number. The pages of a block are numbered
from one on, so the transaction at an index is on the page whose number is one more than a hundredth of
the index, and on no other one. This holds as far as 32 bits can tell the numbers apart (`reach`).

A pipeline asks for all pages of a block that it has passed on, whatever it is answered. To store a
height is another matter: its pages are searched one after the other, and the first search that fails is
the last.

* `covers_ofHeight`: the pages of a height cover its transactions.
* `Standing.searched`: what a delivery has searched for are the pages of the blocks that it sent.
* `Ended.searched`: what is searched for a height, up to its end or to a failure.
* `searched_pages`: **the searches cover the blocks**.
-/

namespace ChainIndex

namespace SearchPage

/-- As many transactions as 32-bit page numbers reach. -/
def reach : Nat := 100 * (UInt32.size - 1)

/-- The transaction at an index is on the page. -/
def Holds (page : SearchPage) (i : Nat) : Prop :=
  page.perPage.toNat * (page.page.toNat - 1) ≤ i ∧ i < page.perPage.toNat * page.page.toNat

/-- Pages of a height with so many transactions: their numbers are one, two and so on, and every index is
on exactly one of them. -/
structure Covers (height : Height) (count : Nat) (pages : List SearchPage) : Prop where
  numbers : pages.map (fun page => page.page.toNat) = List.range' 1 ((count + 99) / 100)
  addressed : ∀ page ∈ pages, page.height = height ∧ page.perPage = 100
  once : ∀ i < count, ∃! k : Nat, ∃ page, pages[k]? = some page ∧ page.Holds i

theorem holds_iff {page : SearchPage} {k i : Nat} (hnumber : page.page.toNat = k + 1)
    (hsize : page.perPage = 100) : page.Holds i ↔ k = i / 100 := by
  have hsize' : page.perPage.toNat = 100 := congrArg UInt32.toNat hsize
  unfold Holds
  rw [hnumber, hsize']
  omega

theorem getElem?_ofHeight {height : Height} {count : UInt64} {k : Nat} {page : SearchPage} :
    (ofHeight height count)[k]? = some page ↔
      k < (count.toNat + 99) / 100 ∧ page = ⟨height, UInt32.ofNat (k + 1), 100⟩ := by
  have hpages : (ofHeight height count)[k]? =
      (List.range ((count.toNat + 99) / 100))[k]?.map fun i => ⟨height, UInt32.ofNat (i + 1), 100⟩ :=
    List.getElem?_map
  rw [hpages]
  by_cases hk : k < (count.toNat + 99) / 100
  · rw [List.getElem?_range hk, Option.map_some, Option.some_inj, and_iff_right hk, eq_comm]
  · have hnone : (List.range ((count.toNat + 99) / 100))[k]? = none :=
      List.getElem?_eq_none (by rw [List.length_range]; omega)
    rw [hnone, Option.map_none]
    exact ⟨nofun, fun h => absurd h.1 hk⟩

/-- **The pages of a height cover its transactions.** -/
theorem covers_ofHeight (height : Height) {count : UInt64} (h : count.toNat ≤ reach) :
    Covers height count.toNat (ofHeight height count) := by
  have hnumber : ∀ k < (count.toNat + 99) / 100, (UInt32.ofNat (k + 1)).toNat = k + 1 :=
    fun k hk => Chain.page_toNat h hk
  refine ⟨?_, fun page hpage => ?_, fun i hi => ?_⟩
  · rw [ofHeight, List.map_map, List.range'_eq_map_range]
    refine List.map_congr_left fun k hk => ?_
    rw [Nat.add_comm]
    exact hnumber k (List.mem_range.1 hk)
  · obtain ⟨hheight, hsize, -⟩ := Chain.mem_ofHeight hpage
    exact ⟨hheight, hsize⟩
  · refine ⟨i / 100, ⟨_, getElem?_ofHeight.2 ⟨by omega, rfl⟩, ?_⟩, ?_⟩
    · exact (holds_iff (hnumber _ (by omega)) rfl).2 rfl
    · rintro k ⟨page, hpage, hholds⟩
      obtain ⟨hk, rfl⟩ := getElem?_ofHeight.1 hpage
      exact (holds_iff (hnumber k hk) rfl).1 hholds

end SearchPage

/-! ## Deliveries -/

/-- Pages for blocks, one block after the other, that cover the transactions of each. -/
def Covered (bs : List Block) (pages : List SearchPage) : Prop :=
  ∃ parts : List (List SearchPage), pages = parts.flatten ∧
    List.Forall₂ (fun b part => b.transactionCount.toNat ≤ SearchPage.reach →
      SearchPage.Covers b.height b.transactionCount.toNat part) bs parts

theorem covered_pagesOf (bs : List Block) : Covered bs (Pipeline.pagesOf bs) := by
  refine ⟨bs.map fun b => SearchPage.ofHeight b.height b.transactionCount, ?_, ?_⟩
  · exact List.flatMap_def
  · rw [List.forall₂_map_right_iff, List.forall₂_same]
    exact fun b _ => SearchPage.covers_ofHeight b.height

def Question.page? : Question → Option SearchPage
  | blocks _ _ => none
  | search page => some page

namespace Trail

variable {t u : Trail}

/-- The pages that were searched for. -/
def searches (t : Trail) : List SearchPage :=
  t.asked.filterMap Question.page?

/-- The blocks that were sent. -/
def passed (t : Trail) : List Block :=
  t.sent.filterMap Payload.block?

/-- What was searched for are the pages of the blocks that were sent. -/
def Searched (t : Trail) : Prop :=
  t.searches = Pipeline.pagesOf t.passed

theorem Searched.append (ht : t.Searched) (hu : u.Searched) : (t ++ u).Searched := by
  unfold Searched searches passed at ht hu ⊢
  rw [asked_append, sent_append, List.filterMap_append, List.filterMap_append, ht, hu]
  exact List.flatMap_append.symm

/-- Questions for blocks search for nothing. -/
theorem searches_questions (seg : Segment) : seg.questions.filterMap Question.page? = [] := by
  refine List.filterMap_eq_nil_iff.2 fun question h => ?_
  obtain ⟨part, -, rfl⟩ := List.mem_map.1 h
  rfl

theorem searched_questions (seg : Segment) (heard : List (HeightRange × BlocksReply)) :
    ({ asked := seg.questions, heard } : Trail).Searched :=
  searches_questions seg

end Trail

namespace Report

variable {answers : SearchPage → SearchReply → Prop}
  {decoder : RawTransaction → Except DecodeError (Measured Transaction)}

theorem searched_trail {r : Report} (h : Pipeline.Settled decoder answers r.blocks
    (Pipeline.pagesOf r.blocks) r.found r.sent) : r.trail.Searched := by
  have hpages : ((Pipeline.pagesOf r.blocks).map Question.search).filterMap Question.page? =
      Pipeline.pagesOf r.blocks := by
    rw [List.filterMap_map]
    exact List.filterMap_some
  unfold Trail.Searched Trail.searches Trail.passed trail
  rw [List.filterMap_append, Trail.searches_questions, List.nil_append, hpages, h.blocks_eq]

theorem searched_trails {rs : List Report} (h : ∀ r ∈ rs, r.trail.Searched) :
    (trails rs).Searched := by
  induction rs with
  | nil => rfl
  | cons r rs ih =>
    obtain ⟨hr, hrs⟩ := List.forall_mem_cons.1 h
    exact hr.append (ih hrs)

end Report

namespace Transfer

variable {σ : Type} {f : RangeFetcher σ} {node : Behavior} {s : Transfer}
  {outcome : Except WorkerError Unit}

theorem Past.searched {segs left : List Segment} {done : List Report}
    (h : Past f node segs done left) : (Report.trails done).Searched :=
  Report.searched_trails fun r hr => Report.searched_trail (h.complete r hr).settled

/-- **In the end all pages of all blocks that were sent have been searched for**, and no others. -/
theorem Standing.searched {base : Trail} {segs : List Segment} (hs : Standing f node base segs s)
    (hbase : base.Searched) (hended : s.stage = .ended outcome) : s.trail.Searched := by
  cases hs with
  | idle | gathering | streaming => cases hended
  | finished done hpast ht =>
    rw [ht]
    exact hbase.append hpast.searched
  -- who stops before the searches has not sent anything either
  | refused e done seg hpast arrived hgathered hmerge ht
  | closed done seg hpast arrived hgathered set hmerge hclosed ht =>
    rw [ht]
    exact (hbase.append hpast.searched).append (Trail.searched_questions seg arrived)
  | failed done r hpast hgathered hmerge hsettled hfailures ht =>
    rw [ht, Report.trails_concat]
    exact hbase.append (hpast.searched.append (Report.searched_trail hsettled))

theorem searched_of_range {segs : List Segment} (hs : Steps f node (start f segs) s)
    (hended : s.stage = .ended outcome) : s.trail.Searched :=
  ((standing_start f node segs).steps hs).searched rfl hended

theorem searched_of_latest {q : LatestQuery} (hs : Steps f node (startLatest f q) s)
    (hended : s.stage = .ended outcome) : s.trail.Searched := by
  cases standing_latest hs with
  | waiting => cases hended
  | unreachable | empty => rfl
  | known bs hreply hempty hstanding => exact hstanding.searched rfl hended

end Transfer

/-! ## Storing a height -/

/-- Among searches and the calls after them, the last deed is a search that failed, or all pages were
searched for. -/
theorem Pursued.searched {pages : List SearchPage} {calls : List StoreCall} {deeds : List Deed}
    {failure? : Option WorkerError}
    (h : Pursued (pages.map .search ++ calls.map .call) deeds failure?) :
    deeds.filterMap Deed.page? = pages ∨
      ∃ page e, deeds.getLast? = some (.search page (.error e)) := by
  induction pages generalizing deeds with
  | nil =>
    refine .inl (List.filterMap_eq_nil_iff.2 fun d hd => ?_)
    obtain ⟨c, -, hc⟩ := List.mem_map.1 (h.acts_prefix.subset (List.mem_map_of_mem hd))
    exact congrArg Act.page? hc.symm
  | cons page rest ih =>
    generalize hplan : (page :: rest).map Act.search ++ calls.map .call = plan at h
    cases h with
    | done => cases hplan
    | @failed d e he left =>
      obtain ⟨hact, -⟩ := List.cons.inj hplan
      cases d with
      | search page' reply =>
        cases reply with
        | error e => exact .inr ⟨page', e, rfl⟩
        | ok raws => cases he
      | fetch | call => cases hact
    | @next d plan deeds _ hd hrest =>
      obtain ⟨hact, rfl⟩ := List.cons.inj hplan
      have hpage : d.page? = some page := congrArg Act.page? hact.symm
      rcases ih hrest with hall | ⟨page', e, hlast⟩
      · exact .inl (by rw [List.filterMap_cons_some hpage, hall])
      · exact .inr ⟨page', e, by rw [List.getLast?_cons, hlast]; rfl⟩

namespace Indexer

variable {σ : Type} {x : Indexer σ} {height : Height} {deeds : List Deed}
  {result : Except WorkerError (Block × List Transaction)}

/-- The last deed is that the block was not taken, before any search, or a search that failed. -/
def CutShort (b : Block) (deeds : List Deed) : Prop :=
  (deeds.filterMap Deed.page? = [] ∧ ∃ e, deeds.getLast? = some (.call (.blocks [b]) (.error e))) ∨
    ∃ page e, deeds.getLast? = some (.search page (.error e))

theorem CutShort.cons {b : Block} (h : CutShort b deeds) {d : Deed} (hd : d.page? = none) :
    CutShort b (d :: deeds) := by
  have hlast : ∀ last, deeds.getLast? = some last → (d :: deeds).getLast? = some last := by
    intro last hlast
    rw [List.getLast?_cons, hlast, Option.getD_some]
  rcases h with ⟨hnone, e, h⟩ | ⟨page, e, h⟩
  · exact .inl ⟨(List.filterMap_cons_none hd).trans hnone, e, hlast _ h⟩
  · exact .inr ⟨page, e, hlast _ h⟩

/-- What is searched for a height: nothing without a block, and else the pages of the block in their
order, all of them or as many as come before a failure. -/
structure Searched (height : Height) (deeds : List Deed) : Prop where
  unfetched : (∀ b, .fetch height (.ok b) ∉ deeds) → deeds.filterMap Deed.page? = []
  fetched : ∀ b, .fetch height (.ok b) ∈ deeds → b.transactionCount.toNat ≤ SearchPage.reach →
    ∃ pages, SearchPage.Covers height b.transactionCount.toNat pages ∧
      deeds.filterMap Deed.page? <+: pages ∧
      (deeds.filterMap Deed.page? = pages ∨ CutShort b deeds)

theorem cutShort_or_all {b : Block} {txs : List Transaction} {failure? : Option WorkerError}
    (h : Pursued (plan height b txs) deeds failure?) :
    deeds.filterMap Deed.page? = SearchPage.ofHeight height b.transactionCount ∨ CutShort b deeds := by
  unfold plan at h
  generalize hplan : Act.call (.blocks [b]) :: _ = acts at h
  cases h with
  | done => cases hplan
  | @failed d e he left =>
    obtain ⟨hact, -⟩ := List.cons.inj hplan
    cases d with
    | call c outcome =>
      cases hact
      cases outcome with
      | error e => exact .inr (.inl ⟨rfl, e, rfl⟩)
      | ok u => cases he
    | fetch | search => cases hact
  | @next d plan deeds _ hd hrest =>
    obtain ⟨hact, rfl⟩ := List.cons.inj hplan
    have hpage : d.page? = none := congrArg Act.page? hact.symm
    rcases hrest.searched with hall | hfailed
    · exact .inl (by rw [List.filterMap_cons_none hpage, hall])
    · exact .inr (CutShort.cons (.inr hfailed) hpage)

theorem Ended.searched (h : x.Ended height deeds result) : Searched height deeds := by
  have horderly := h.orderly
  cases h with
  | unfetched e => exact ⟨fun _ => rfl, fun b hb => by simp at hb⟩
  | @fetched b rest _ hrest =>
    obtain ⟨_, _, heq, honce⟩ := horderly.fetch
    cases heq
    refine ⟨fun hnone => absurd List.mem_cons_self (hnone b), fun c hc hreach => ?_⟩
    obtain rfl : c = b := by
      rcases List.mem_cons.1 hc with hc | hc
      · cases hc
        rfl
      · exact absurd hc (honce _ _)
    refine ⟨_, SearchPage.covers_ofHeight height hreach, horderly.pages_prefix c hc, ?_⟩
    rcases cutShort_or_all hrest.1 with hall | hcut
    · exact .inl ((List.filterMap_cons_none rfl).trans hall)
    · exact .inr (hcut.cons rfl)

end Indexer

/-- **Searches cover the blocks.** As far as 32-bit page numbers reach, the pages that a delivery of a
range or of the newest blocks has searched for are those of the blocks that it sent, block after block:
numbered from one, each once, with every index on exactly one of them. So it is whatever the node
replies and in whatever order things happen, and what a fetcher does with its source is such a delivery.
For a height that is stored the same pages are searched one after the other, unless the store does not
take the block, up to the first search that fails; without a block there are no searches. -/
theorem searched_pages {σ : Type} [Clocked σ] (f : RangeFetcher σ) (x : Indexer σ) (node : Behavior) :
    (∀ range s outcome, Transfer.Steps f node (Transfer.start f (f.segments range)) s →
      s.stage = .ended outcome → Covered s.trail.passed s.trail.searches) ∧
    (∀ q s outcome, Transfer.Steps f node (Transfer.startLatest f q) s →
      s.stage = .ended outcome → Covered s.trail.passed s.trail.searches) ∧
    (∀ deadline world,
      (∀ range, ∃ s, Transfer.Steps f (.ofSource f.source deadline)
          (Transfer.start f (f.segments range)) s ∧
        s.stage = .ended (f.fetch range deadline world).1.outcome ∧
        s.trail.sent = (f.fetch range deadline world).1.payloads) ∧
      ∀ q, ∃ s, Transfer.Steps f (.ofSource f.source deadline) (Transfer.startLatest f q) s ∧
        s.stage = .ended (f.fetchLatest q deadline world).1.outcome ∧
        s.trail.sent = (f.fetchLatest q deadline world).1.payloads) ∧
    ∀ {κ : Type} (s : Store κ) (height : Height) (w : Work σ κ), ∃ deeds result w',
      Indexer.Storing.Performs x.source s (some (Clocked.now w.world + x.timeout))
        (x.storeHeight (some s) height) (x.storeHeight (some s.noting) height) w deeds result w' ∧
      Indexer.Searched height deeds := by
  refine ⟨fun range s outcome hs hended => ?_, fun q s outcome hs hended => ?_,
    fun deadline world => ?_, fun s height w => ?_⟩
  · rw [Transfer.searched_of_range hs hended]
    exact covered_pagesOf _
  · rw [Transfer.searched_of_latest hs hended]
    exact covered_pagesOf _
  · have hf := follows_ofSource f.source deadline
    refine ⟨fun range => ?_, fun q => ?_⟩
    · obtain ⟨s, hs, -, hended, hsent⟩ := f.fetch_steps hf world trivial range
      exact ⟨s, hs, hended, hsent⟩
    · obtain ⟨s, hs, -, hended, hsent⟩ := f.fetchLatest_steps hf world trivial q
      exact ⟨s, hs, hended, hsent⟩
  · obtain ⟨deeds, result, w', hperforms, hended⟩ := x.storeHeight_performs s height w
    exact ⟨deeds, result, w', hperforms, hended.searched⟩

/-! ## A block of two pages -/

namespace LongBlock

/-- A block whose transactions need two pages. -/
def block : Block := { height := 4, transactionCount := 101 }

/-- A delivery of the block has searched for both of its pages. -/
theorem searched_pages_two :
    let range : HeightRange := { first := 4, last := 4 }
    let node : Behavior := .ofAnswers (fun _ => .ok [block]) fun _ => .ok []
    let f : RangeFetcher Stillness :=
      { source := .ofAnswers (fun _ => .ok [block]) fun _ => .ok [] }
    ∃ s outcome, Transfer.Steps f node (Transfer.start f (f.segments range)) s ∧
      s.stage = .ended outcome ∧ s.trail.passed = [block] ∧
      SearchPage.Covers 4 101 s.trail.searches := by
  intro range node f
  have hf : f.source.Follows none node fun _ => True :=
    follows_ofAnswers (fun _ _ => rfl) (fun _ => rfl) none
  obtain ⟨s, hs, -, hended, -⟩ := f.fetch_steps hf {} trivial range
  obtain ⟨hcovered, -⟩ := searched_pages f { source := f.source } node
  obtain ⟨parts, hsearches, hparts⟩ := hcovered range s _ hs hended
  -- the range is one page of one part, so the blocks of the only reply were sent
  have hsegments : f.segments range = [range].map .ofPage := by
    simp [RangeFetcher.segments, HeightRange.split, HeightRange.cuts, range, f]
  have hsplit : range.split RangeFetcher.partSize = [range] := by
    simp [HeightRange.split, HeightRange.cuts, RangeFetcher.partSize, range]
  have hheard := (Transfer.replies_of_ended (hsegments ▸ hs) hended).1
  obtain ⟨r, hr, htrail, -⟩ := Transfer.delivered_of_ended rfl (hsegments ▸ hs) hended
    fun x hx => ⟨_, hheard x hx⟩
  have hpassed : s.trail.passed = [block] := by
    have hblocks : r.set.blocks = [block] := by
      rw [hr.set_eq, hr.received_eq hsplit rfl]
      rfl
    rw [htrail, ← hblocks, ← hr.blocks]
    rfl
  rw [hpassed] at hparts
  obtain ⟨part, others, hpart, hothers, rfl⟩ := List.forall₂_cons_left_iff.1 hparts
  rw [List.forall₂_nil_left_iff.1 hothers, List.flatten_cons, List.flatten_nil,
    List.append_nil] at hsearches
  refine ⟨s, _, hs, hended, hpassed, ?_⟩
  rw [hsearches]
  exact hpart (by decide)

/-- A node that has the block but cannot search for its first page. -/
def indexer : Indexer Stillness where
  source := (Source.ofAnswers (fun _ => .ok []) fun page =>
    if page.page = 1 then .error (.status 400 "no such page") else .ok []).withBlock fun _ =>
      .ok block

def start : Work Stillness MemoryStore := { world := {}, other := {} }

/-- **The second page is not searched for if the first one fails.** Page numbers that 32 bits do not
reach start again at zero. -/
theorem searches_cut_short :
    (∃ deeds result w', Indexer.Storing.Performs indexer.source MemoryStore.store
        (some (Clocked.now start.world + indexer.timeout))
        (indexer.storeHeight (some MemoryStore.store) 4)
        (indexer.storeHeight (some MemoryStore.store.noting) 4) start deeds result w' ∧
      .fetch 4 (.ok block) ∈ deeds ∧ .call (.blocks [block]) (.ok ()) ∈ deeds ∧
      deeds.filterMap Deed.page? = [{ height := 4, page := 1, perPage := 100 }] ∧
      ¬SearchPage.Covers 4 101 (deeds.filterMap Deed.page?)) ∧
    ¬SearchPage.Covers 4 429496729501 (SearchPage.ofHeight 4 429496729501) := by
  refine ⟨⟨[.fetch 4 (.ok block), .call (.blocks [block]) (.ok ()),
    .search ⟨4, 1, 100⟩ (.error (.status 400 "no such page"))], _, _,
      ⟨rfl, ?_, fun notes => rfl⟩, ?_⟩, ?_⟩
  · exact .fetch (.call (.search .nil))
  · refine ⟨by simp, by simp, rfl, fun h => ?_⟩
    have hlength : 1 = 2 := by
      have hnumbers := congrArg List.length h.numbers
      rwa [List.length_range', List.length_map] at hnumbers
    exact absurd hlength (by decide)
  · intro h
    -- the last page has the number zero
    have hlast : (SearchPage.ofHeight 4 429496729501)[4294967295]? = some ⟨4, 0, 100⟩ :=
      SearchPage.getElem?_ofHeight.2 ⟨by decide, rfl⟩
    have hnumber : (0 : UInt32).toNat ∈
        (SearchPage.ofHeight 4 429496729501).map fun page => page.page.toNat :=
      List.mem_map.2 ⟨_, List.mem_of_getElem? hlast, rfl⟩
    rw [h.numbers] at hnumber
    exact absurd (List.mem_range'_1.1 hnumber).1 (by decide)

end LongBlock

end ChainIndex
