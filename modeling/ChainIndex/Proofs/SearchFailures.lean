import ChainIndex.Proofs.Barrier
import ChainIndex.Proofs.Completeness

/-!
# Failed searches stop nothing and hide nothing

Once the blocks of a page are there, each of its searches is asked for and waited for, whether others
fail or not. A page is over when all of its blocks, and whatever the other searches have found, were sent
(`Report.Delivered`); only then are the failures told, each once (`Report.outcome`).

* `delivered_of_ended`: so ends every delivery of a page whose blocks can be had.
* `stopped_of_failure`: a delivery of pages stops at the first page with a failed search.
* `search_failures`: **both, for any node and any order of events.**
-/

namespace ChainIndex

open Pipeline (failuresOf pagesOf)

variable {σ : Type}

namespace Report

/-- How a page was delivered whose blocks could be had, whichever of its searches fail: all searches for
its blocks were asked for and answered, and what was sent are the blocks, in the order of their heights,
and the transactions that were found and can be decoded. -/
structure Delivered (f : RangeFetcher σ) (node : Behavior) (page : HeightRange) (r : Report) :
    Prop where
  segment : r.segment = .ofPage page
  gathered : r.segment.Gathered node [] r.heard
  set_eq : r.set = ({} : BlockSet).extend r.received
  blocks : r.sent.filterMap Payload.block? = r.set.blocks
  searched : (r.found.map Prod.fst).Perm (pagesOf r.set.blocks)
  replies : ∀ x ∈ r.found, node.search x.1 x.2
  transactions : (r.sent.filterMap Payload.transaction?).Perm (r.decoded f)
  streamed : ∀ x ∈ r.sent, x.Streamed

/-- How a page ends after its searches. -/
def outcome (r : Report) : Except WorkerError Unit :=
  if failuresOf r.found = [] then .ok ()
  else .error (.incomplete .transactions ((failuresOf r.found).map RangeFetcher.failureText))

variable {f : RangeFetcher σ} {node : Behavior} {page : HeightRange} {r : Report}

theorem delivered_of_settled (hseg : r.segment = .ofPage page)
    (hgathered : r.segment.Gathered node [] r.heard)
    (hmerge : RangeFetcher.merge r.segment.known (r.heard.map Prod.snd) = .ok r.set)
    (hsettled : Pipeline.Settled (f.decodeWith r.set) node.search r.blocks (pagesOf r.blocks) r.found
      r.sent) : r.Delivered f node page := by
  have hblocks : r.blocks = r.set.blocks := by
    rw [Report.blocks, hseg, RangeFetcher.selected_ofPage]
  obtain ⟨-, hset⟩ := RangeFetcher.merge_eq_ok.1 hmerge
  rw [hseg] at hset
  rw [hblocks] at hsettled
  exact ⟨hseg, hgathered, hset, hsettled.blocks_eq, hsettled.found_perm, hsettled.answered,
    hsettled.transactions_perm, hsettled.streamed⟩

theorem Complete.delivered (hr : r.Complete f node) (hseg : r.segment = .ofPage page) :
    r.Delivered f node page :=
  delivered_of_settled hseg hr.gathered hr.merged hr.settled

theorem outcome_of_faultless (h : failuresOf r.found = []) : r.outcome = .ok () :=
  if_pos h

theorem outcome_of_failures (h : failuresOf r.found ≠ []) :
    r.outcome =
      .error (.incomplete .transactions ((failuresOf r.found).map RangeFetcher.failureText)) :=
  if_neg h

/-- A page ends well if no search has failed, and only then. -/
theorem outcome_ok_iff : r.outcome = .ok () ↔ ∀ x ∈ r.found, ∃ raws, x.2 = .ok raws := by
  rw [← Pipeline.failuresOf_eq_nil]
  constructor
  · intro h
    by_contra hfailures
    rw [outcome_of_failures hfailures] at h
    cases h
  · exact outcome_of_faultless

/-- **The message names each failed search once**, with its height, its page and its error. -/
theorem message_of_outcome {e : WorkerError} (h : r.outcome = .error e) :
    e.message = "Errors Getting Transactions: - " ++
      String.join ((failuresOf r.found).map fun x =>
        "height " ++ toString x.1.height ++ " page " ++ toString x.1.page ++ ": " ++ x.2.message ++
          " , ") := by
  have hfailures : failuresOf r.found ≠ [] := by
    intro hnone
    rw [outcome_of_faultless hnone] at h
    cases h
  rw [outcome_of_failures hfailures] at h
  cases h
  rw [WorkerError.message_incomplete, List.map_map]
  rfl

end Report

namespace Transfer

variable {f : RangeFetcher σ} {node : Behavior} {s : Transfer} {outcome : Except WorkerError Unit}

/-- **A page whose blocks could be had is delivered**, and its failed searches are told after that. -/
theorem delivered_of_ended {page : HeightRange} (hopen : f.isOpen = true)
    (hs : Steps f node (start f [.ofPage page]) s) (hended : s.stage = .ended outcome)
    (hheard : ∀ x ∈ s.trail.heard, ∃ bs, x.2 = .ok bs) :
    ∃ r : Report, r.Delivered f node page ∧ s.trail = r.trail ∧ outcome = r.outcome := by
  have hstanding := (standing_start f node [.ofPage page]).steps hs
  cases hstanding with
  | idle | gathering | streaming => cases hended
  | finished done hpast ht =>
    cases hended
    obtain ⟨r, rfl, hseg, hr⟩ := hpast.report_of_single
    refine ⟨r, hr.delivered hseg, ?_, (Report.outcome_of_faultless hr.faultless).symm⟩
    rw [ht, Trail.nil_append]
    exact Trail.append_nil _
  | refused e done seg hpast arrived hgathered hmerge ht =>
    -- some part could not be had
    refine absurd (fun x hx => hheard x ?_) (RangeFetcher.unanswered_of_merge hmerge)
    rw [ht]
    exact List.mem_append_right _ hx
  | closed done seg hpast arrived hgathered set hmerge hclosed ht =>
    rw [hopen] at hclosed
    cases hclosed
  | failed done r hpast hgathered hmerge hsettled hfailures ht =>
    cases hended
    obtain ⟨rfl, hseg, -⟩ := hpast.of_single
    refine ⟨r, Report.delivered_of_settled hseg hgathered hmerge hsettled, ?_,
      (Report.outcome_of_failures hfailures).symm⟩
    rw [ht, Trail.nil_append]
    exact Trail.append_nil _

/-- **A delivery of pages stops at a page with a failed search**: the pages before it are complete, the
page itself is delivered, and nothing was asked for after it. -/
theorem stopped_of_failure {pages : List HeightRange}
    (hs : Steps f node (start f (pages.map .ofPage)) s) (hended : s.stage = .ended outcome)
    (hfailed : ∃ x ∈ s.trail.found, ∃ e, x.2 = .error e) :
    ∃ before page after done r, pages = before ++ page :: after ∧
      done.map Report.segment = before.map .ofPage ∧ (∀ q ∈ done, q.Complete f node) ∧
      r.Delivered f node page ∧ s.trail = Report.trails (done ++ [r]) ∧ outcome = r.outcome ∧
      outcome ≠ .ok () := by
  obtain ⟨x, hx, e, he⟩ := hfailed
  -- no search has failed in a page that is complete
  have hpast {done : List Report} (hdone : ∀ r ∈ done, r.Complete f node)
      (hmem : x ∈ (Report.trails done).found) : False := by
    rw [Report.found_trails] at hmem
    obtain ⟨r, hr, hmem⟩ := List.mem_flatMap.1 hmem
    obtain ⟨raws, hraws⟩ := (hdone r hr).answered.2 x hmem
    rw [he] at hraws
    cases hraws
  have hstanding := (standing_start f node (pages.map .ofPage)).steps hs
  cases hstanding with
  | idle | gathering | streaming => cases hended
  | finished done hpast' ht =>
    rw [ht, Trail.nil_append] at hx
    exact (hpast hpast'.complete hx).elim
  | refused e' done seg hpast' arrived hgathered hmerge ht
  | closed done seg hpast' arrived hgathered set hmerge hclosed ht =>
    rw [ht, Trail.nil_append, Trail.found_append, List.append_nil] at hx
    exact (hpast hpast'.complete hx).elim
  | failed done r hpast' hgathered hmerge hsettled hfailures ht =>
    cases hended
    obtain ⟨before, rest, hpages, hbefore, hrest⟩ := List.map_eq_append_iff.1 hpast'.segments
    obtain ⟨page, after, rfl, hseg, -⟩ := List.map_eq_cons_iff.1 hrest
    exact ⟨before, page, after, done, r, hpages, hbefore.symm, hpast'.complete,
      Report.delivered_of_settled hseg.symm hgathered hmerge hsettled,
      ht.trans (Trail.nil_append _), (Report.outcome_of_failures hfailures).symm, nofun⟩

end Transfer

namespace RangeFetcher

variable [Clocked σ] (f : RangeFetcher σ) {deadline : Deadline} {world : σ}

/-- A page alone is fetched as a range of one page. -/
theorem fetchPages_single (page : HeightRange) :
    f.fetchPages deadline [page] world = f.fetchPage page deadline world := by
  rw [fetchPages_cons, fetchPage_eq]
  rcases houtcome : (f.fetchSegment (.ofPage page) deadline world).1.outcome with e | u
  · rfl
  · show (({ outcome := .ok (), payloads := _ ++ [], journal := _ ++ [] } : Delivery), _) = _
    rw [List.append_nil, List.append_nil]
    refine Prod.ext ?_ rfl
    rw [← houtcome]

/-- **A page is fetched by a delivery that comes to its end.** -/
theorem fetchPage_steps {node : Behavior} {I : σ → Prop} (hf : f.source.Follows deadline node I)
    (world : σ) (hworld : I world) (page : HeightRange) :
    ∃ s, Transfer.Steps f node (Transfer.start f [.ofPage page]) s ∧ s.Over ∧
      s.stage = .ended (f.fetchPage page deadline world).1.outcome ∧
      s.trail.sent = (f.fetchPage page deadline world).1.payloads := by
  obtain ⟨left, q, t, hsteps, hout, hdelivered, -⟩ := f.fetchPages_steps hf [page]
    (p := .start f.config.fetchers []) (t := {}) hworld rfl
  rw [fetchPages_single] at hsteps hdelivered
  have hkept := (Transfer.kept_start f [.ofPage page]).steps hsteps
  have hsent : t.sent = q.delivered := by
    rw [hkept.sent, Pipeline.sent, hout, List.append_nil]
  exact ⟨_, hsteps, ⟨⟨_, rfl⟩, hout, hsent.symm⟩, rfl, hsent.trans hdelivered⟩

/-- **Failed searches stop nothing and hide nothing.** Whatever a node replies to searches, and in
whatever order its replies and the moves of the pipeline come:

* a page whose blocks could be had ends with all of its blocks sent, and all transactions that its other
  searches have found and that can be decoded; it ends well exactly if no search has failed, and else
  its message names each failed search once;
* a delivery of a range stops at the first page with a failed search.

All deliveries end if all questions are answered, and what a fetcher does with its source is one of
them. -/
theorem search_failures (node : Behavior) (page range : HeightRange) (hopen : f.isOpen = true) :
    (∀ s outcome, Transfer.Steps f node (Transfer.start f [.ofPage page]) s →
      s.stage = .ended outcome → (∀ x ∈ s.trail.heard, ∃ bs, x.2 = .ok bs) →
      ∃ r : Report, r.Delivered f node page ∧ s.trail = r.trail ∧ outcome = r.outcome) ∧
    (∀ r : Report, (r.outcome = .ok () ↔ ∀ x ∈ r.found, ∃ raws, x.2 = .ok raws) ∧
      ∀ e, r.outcome = .error e → e.message = "Errors Getting Transactions: - " ++
        String.join ((failuresOf r.found).map fun x =>
          "height " ++ toString x.1.height ++ " page " ++ toString x.1.page ++ ": " ++ x.2.message ++
            " , ")) ∧
    (∀ s outcome, Transfer.Steps f node (Transfer.start f (f.segments range)) s →
      s.stage = .ended outcome → (∃ x ∈ s.trail.found, ∃ e, x.2 = .error e) →
      ∃ before page after done r, range.split f.config.bigPage = before ++ page :: after ∧
        done.map Report.segment = before.map .ofPage ∧ (∀ q ∈ done, q.Complete f node) ∧
        r.Delivered f node page ∧ s.trail = Report.trails (done ++ [r]) ∧ outcome = r.outcome ∧
        outcome ≠ .ok ()) ∧
    (node.Total →
      Ends (Transfer.Step f node) Transfer.Over (Transfer.start f [.ofPage page]) ∧
        Ends (Transfer.Step f node) Transfer.Over (Transfer.start f (f.segments range))) ∧
    (∀ (I : σ → Prop) (deadline : Deadline) (world : σ),
      f.source.Follows deadline node I → I world →
      (∃ s, Transfer.Steps f node (Transfer.start f [.ofPage page]) s ∧ s.Over ∧
        s.stage = .ended (f.fetchPage page deadline world).1.outcome ∧
        s.trail.sent = (f.fetchPage page deadline world).1.payloads) ∧
      ∃ s, Transfer.Steps f node (Transfer.start f (f.segments range)) s ∧ s.Over ∧
        s.stage = .ended (f.fetch range deadline world).1.outcome ∧
        s.trail.sent = (f.fetch range deadline world).1.payloads) := by
  refine ⟨?_, ?_, ?_, ?_, ?_⟩
  · intro s outcome hs hended hheard
    exact Transfer.delivered_of_ended hopen hs hended hheard
  · intro r
    exact ⟨Report.outcome_ok_iff, fun e he => Report.message_of_outcome he⟩
  · intro s outcome hs hended hfailed
    exact Transfer.stopped_of_failure hs hended hfailed
  · intro htotal
    exact ⟨(Transfer.ends_of_kept htotal (Transfer.kept_start f _)).imp fun _ h => h.1,
      (Transfer.ends_of_kept htotal (Transfer.kept_start f _)).imp fun _ h => h.1⟩
  · intro I deadline world hf hworld
    exact ⟨f.fetchPage_steps hf world hworld page, f.fetch_steps hf world hworld range⟩

end RangeFetcher

/-! ## A node that cannot search at one height -/

/-- A node that says what it says. -/
def Behavior.ofAnswers (blocks : HeightRange → BlocksReply) (search : SearchPage → SearchReply) :
    Behavior where
  blocks range _ reply := reply = blocks range
  search page reply := reply = search page

/-- Replies that depend on the page alone are those to the pages that were searched. -/
theorem Report.Delivered.failures_perm {f : RangeFetcher σ} {blocks : HeightRange → BlocksReply}
    {search : SearchPage → SearchReply} {page : HeightRange} {r : Report}
    (hr : r.Delivered f (.ofAnswers blocks search) page) :
    (failuresOf r.found).Perm (failuresOf ((pagesOf r.set.blocks).map fun p => (p, search p))) := by
  have hfound : r.found = (r.found.map Prod.fst).map fun p => (p, search p) := by
    rw [List.map_map]
    refine (List.map_id _).symm.trans (List.map_congr_left fun x hx => ?_)
    exact Prod.ext rfl (hr.replies x hx)
  rw [hfound]
  exact (hr.searched.map _).filterMap _

/-- The replies for a page of one part are that one. -/
theorem Report.Delivered.received_eq {f : RangeFetcher σ} {blocks : HeightRange → BlocksReply}
    {search : SearchPage → SearchReply} {page part : HeightRange} {bs : List Block} {r : Report}
    (hr : r.Delivered f (.ofAnswers blocks search) page)
    (hsplit : page.split RangeFetcher.partSize = [part]) (hblocks : blocks part = .ok bs) :
    r.received = bs := by
  have hparts : (r.heard.map Prod.fst).Perm [part] := by
    have hall := hr.gathered.parts
    rw [hr.segment, List.append_nil] at hall
    rw [← hsplit]
    exact hall
  obtain ⟨x, hx, hpart⟩ := List.map_eq_singleton_iff.1 (List.perm_singleton.1 hparts)
  have hreply : x.2 = blocks x.1 := hr.gathered.replies x (hx ▸ List.mem_cons_self)
  rw [hpart, hblocks] at hreply
  rw [received, hx, List.map_singleton, hreply]
  exact List.append_nil bs

/-- Of two blocks with a transaction each, the second one's cannot be searched for. Both are sent, and
then the failure is told. -/
theorem search_failures_second :
    let page : HeightRange := { first := 1, last := 2 }
    let first : Block := { height := 1, transactionCount := 1 }
    let second : Block := { height := 2, transactionCount := 1 }
    let search : SearchPage → SearchReply :=
      fun page => if page.height = 2 then .error (.timeout 30) else .ok []
    let f : RangeFetcher Stillness := { source := .ofAnswers (fun _ => .ok [first, second]) search }
    let d := (f.fetchPage page none {}).1
    f.isOpen = true ∧ d.payloads.filterMap Payload.block? = [first, second] ∧
      d.outcome = .error (.incomplete .transactions
        ["height 2 page 1: Request timed out after 30ms"]) := by
  intro page first second search f d
  have hf : f.source.Follows none (.ofAnswers (fun _ => .ok [first, second]) search) fun _ => True :=
    follows_ofAnswers (fun _ _ => rfl) (fun _ => rfl) none
  obtain ⟨hpage, -, -, -, hfetch⟩ := f.search_failures _ page page rfl
  obtain ⟨⟨s, hs, -, hended, hsent⟩, -⟩ := hfetch (fun _ => True) none {} hf trivial
  have hheard := (Transfer.replies_of_ended hs hended).1
  obtain ⟨r, hr, htrail, houtcome⟩ := hpage s _ hs hended fun x hx => ⟨_, hheard x hx⟩
  have hsplit : page.split RangeFetcher.partSize = [page] := by
    simp [HeightRange.split, HeightRange.cuts, RangeFetcher.partSize, page]
  have hset : r.set.blocks = [first, second] := by
    rw [hr.set_eq, hr.received_eq hsplit rfl]
    rfl
  have hfailures : failuresOf r.found =
      [({ height := 2, page := 1, perPage := 100 }, .timeout 30)] := by
    have hperm := hr.failures_perm
    have hall : failuresOf ((pagesOf [first, second]).map fun p => (p, search p)) =
        [({ height := 2, page := 1, perPage := 100 }, .timeout 30)] := by decide
    rw [hset, hall] at hperm
    exact List.perm_singleton.1 hperm
  refine ⟨rfl, ?_, ?_⟩
  · rw [← hset, ← hr.blocks, ← hsent, htrail]
    rfl
  · rw [houtcome, Report.outcome, hfailures]
    rfl

end ChainIndex
