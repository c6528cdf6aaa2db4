import ChainIndex.Proofs.TransferEnds
import ChainIndex.Proofs.Turns

/-!
# Fetching is a delivery

A fetcher asks its source, and the clock of the world decides what happens next. All that matters of the
source is what its questions may end with (`Source.Follows`); any source follows the node that replies
whatever the source may reply (`follows_ofSource`).

* `fetch_steps`: **whatever a fetcher does for a range is a delivery of its pages**, in one of the orders
  that `Transfer.Step` allows, up to its end.
* `fetchLatest_steps`: the same for the newest blocks.
-/

namespace ChainIndex

variable {σ : Type}

/-- What a source may reply to the questions of a fetcher. -/
def Behavior.ofSource (source : Source σ) (deadline : Deadline) : Behavior where
  blocks range limit := (source.blocks range limit deadline).May
  search page := (source.search page deadline).May

variable [Clocked σ]

/-- Questions end as a node may reply, as long as the world keeps to `I`. -/
structure Source.Follows (source : Source σ) (deadline : Deadline) (node : Behavior)
    (I : σ → Prop) : Prop where
  timeless : Timeless I
  blocks : ∀ range limit, (source.blocks range limit deadline).Always I (node.blocks range limit)
  search : ∀ page, (source.search page deadline).Always I (node.search page)

theorem follows_ofSource (source : Source σ) (deadline : Deadline) :
    source.Follows deadline (.ofSource source deadline) fun _ => True where
  timeless _ _ _ := trivial
  blocks _ _ := Activity.always_may _
  search _ := Activity.always_may _

/-- A world in which nothing happens. -/
structure Stillness where
  now : Instant := 0

instance : Clocked Stillness where
  now := Stillness.now
  goTo now _ := { now }
  now_goTo _ _ := rfl

/-- A source that answers at once, and knows nothing but blocks by ranges and transactions. -/
def Source.ofAnswers (blocks : HeightRange → BlocksReply) (search : SearchPage → SearchReply) :
    Source Stillness where
  block _ _ := .done (.error .cancelled)
  blocks range _ _ := .done (blocks range)
  search page _ := .done (search page)
  reward _ _ := .done (.error .cancelled)
  balance _ _ := .done (.error .cancelled)
  delegations _ _ := .done (.error .cancelled)

theorem follows_ofAnswers {blocks : HeightRange → BlocksReply} {search : SearchPage → SearchReply}
    {node : Behavior} (hblocks : ∀ range limit, node.blocks range limit (blocks range))
    (hsearch : ∀ page, node.search page (search page)) (deadline : Deadline) :
    (Source.ofAnswers blocks search).Follows deadline node fun _ => True where
  timeless _ _ _ := trivial
  blocks range limit := hblocks range limit
  search page := hsearch page

/-! ## A pipeline after others -/

namespace Pipeline

variable {decoder : RawTransaction → Except DecodeError (Measured Transaction)}
  {answers : SearchPage → SearchReply → Prop} {p q : Pipeline} {m : Move}

/-- The same pipeline after others have delivered something. -/
def after (p : Pipeline) (before : List Payload) (journal : List Metric) : Pipeline :=
  { p with delivered := before ++ p.delivered, journal := journal ++ p.journal }

theorem Moved.after (h : Moved decoder p m q) (before : List Payload) (journal : List Metric) :
    Moved decoder (p.after before journal) m (q.after before journal) := by
  apply moved_of_step
  cases h <;>
    simp_all [step?, Pipeline.after, withFetcher, hasRoom, hasSearchRoom, rawRoom]

theorem restart_eq_after (h : p.out = []) (n : Nat) (bs : List Block) :
    p.restart n bs = (start n bs).after p.delivered p.journal := by
  simp [restart, Pipeline.after, start, h]

end Pipeline

/-! ## A delivery follows the fetcher -/

namespace Transfer

variable {f : RangeFetcher σ} {node : Behavior} {seg : Segment} {set : BlockSet}
  {left : List Segment} {p q : Pipeline} {t : Trail}

omit [Clocked σ] in
/-- The moves of a pipeline are steps of the delivery. -/
theorem stream_steps (h : Pipeline.Steps (f.decodeWith set) node.search p q)
    (seg : Segment) (left : List Segment) (before : List Payload) (journal : List Metric) (t : Trail) :
    ∃ t', Steps f node ⟨.streaming seg set, left, p.after before journal, t⟩
      ⟨.streaming seg set, left, q.after before journal, t'⟩ := by
  induction h with
  | refl => exact ⟨t, .refl⟩
  | tail _ hmove ih =>
    obtain ⟨t', hsteps⟩ := ih
    obtain ⟨m, hm, hmoved⟩ := hmove
    exact ⟨_, hsteps.tail (.move m _ hm (hmoved.after before journal).step)⟩

omit [Clocked σ] in
/-- Replies may arrive in any order. -/
theorem reply_steps (arrived : List (HeightRange × BlocksReply)) :
    ∀ {pending : List HeightRange} (before : List (HeightRange × BlocksReply)) (t : Trail),
      (arrived.map Prod.fst).Perm pending → (∀ x ∈ arrived, node.blocks x.1 0 x.2) →
      Steps f node ⟨.gathering seg pending before, left, p, t⟩
        ⟨.gathering seg [] (before ++ arrived), left, p, t ++ { heard := arrived }⟩ := by
  induction arrived with
  | nil =>
    intro pending before t hperm _
    rw [List.map_nil, List.nil_perm] at hperm
    rw [hperm, List.append_nil]
    exact (Trail.append_nil t).symm ▸ .refl
  | cons x arrived ih =>
    intro pending before t hperm hreplies
    have hmem : x.1 ∈ pending := hperm.subset List.mem_cons_self
    obtain ⟨i, hi⟩ := List.mem_iff_getElem?.1 hmem
    obtain ⟨hlt, hget⟩ := List.getElem?_eq_some_iff.1 hi
    have hrest : (arrived.map Prod.fst).Perm (pending.eraseIdx i) := by
      refine List.Perm.cons_inv (hperm.trans ?_)
      rw [← hget]
      exact (List.getElem_cons_eraseIdx_perm hlt).symm
    have hsteps := ih (before ++ [(x.1, x.2)]) (t ++ { heard := [(x.1, x.2)] }) hrest
      fun y hy => hreplies y (List.mem_cons_of_mem _ hy)
    rw [List.append_assoc, Trail.append_assoc] at hsteps
    exact .head (.reply i x.1 x.2 hi (hreplies x List.mem_cons_self)) hsteps

end Transfer

namespace RangeFetcher

variable (f : RangeFetcher σ) {node : Behavior} {I : σ → Prop} {deadline : Deadline} {world : σ}

/-- **Every part that is asked for is answered once**, and the replies keep to what the node may say. -/
theorem askParts_replies (hf : f.source.Follows deadline node I) (hworld : I world)
    (parts : List HeightRange) :
    ∃ arrived : List (HeightRange × BlocksReply),
      (f.askParts parts deadline world).1 = arrived.map Prod.snd ∧
      (arrived.map Prod.fst).Perm parts ∧ (∀ x ∈ arrived, node.blocks x.1 0 x.2) ∧
      I (f.askParts parts deadline world).2 := by
  -- the crew answers by places, and at each place stands the question for one part
  set questions := parts.map fun part => f.source.blocks part 0 deadline with hquestions
  have halways : ∀ (i : Nat) (a : Activity σ BlocksReply), questions[i]? = some a →
      a.Always I fun r => ∃ part, parts[i]? = some part ∧ node.blocks part 0 r := by
    intro i a ha
    rw [hquestions, List.getElem?_map, Option.map_eq_some_iff] at ha
    obtain ⟨part, hpart, rfl⟩ := ha
    exact (hf.blocks part 0).imp fun r hr => ⟨part, hpart, hr⟩
  obtain ⟨hall, hperm, hI⟩ := Crew.finish_ofList hf.timeless hworld halways
  set results := ((Crew.ofList questions).finish world).1 with hresults
  refine ⟨results.map fun x => (parts[x.1]?.getD {}, x.2), ?_, ?_, ?_, hI⟩
  · rw [List.map_map]
    rfl
  -- the places in any order are the parts in any order
  · have hmap := hperm.map fun i => parts[i]?.getD {}
    rw [hquestions, List.length_map, List.map_map] at hmap
    rw [List.map_map]
    refine hmap.trans (List.Perm.of_eq ?_)
    apply List.ext_getElem
    · simp
    · intro i h₁ h₂
      simp [h₂]
  · intro x hx
    obtain ⟨y, hy, rfl⟩ := List.mem_map.1 hx
    obtain ⟨part, hpart, hr⟩ := hall y hy
    simp only [hpart, Option.getD_some]
    exact hr

/-- One segment. -/
def fetchSegment (seg : Segment) (deadline : Deadline) : StateM σ Delivery := fun world =>
  match merge seg.known (f.askParts seg.parts deadline world).1 with
  | .error e => ({ outcome := .error e }, (f.askParts seg.parts deadline world).2)
  | .ok set => f.stream (seg.selected set) set deadline (f.askParts seg.parts deadline world).2

omit [Clocked σ] in
theorem selected_ofPage (page : HeightRange) (set : BlockSet) :
    (Segment.ofPage page).selected set = set.blocks :=
  List.filter_eq_self.2 fun _ _ => decide_eq_true UInt64.zero_le

theorem fetchPage_eq (page : HeightRange) :
    f.fetchPage page deadline = f.fetchSegment (.ofPage page) deadline := by
  funext world
  rw [fetchSegment]
  show (match merge {} (f.askParts (page.split partSize) deadline world).1 with
    | .error e => pure { outcome := .error e }
    | .ok set => f.stream set.blocks set deadline : StateM σ Delivery)
      (f.askParts (page.split partSize) deadline world).2 = _
  simp only [selected_ofPage]
  change _ = (match merge {} (f.askParts (page.split partSize) deadline world).1 with
    | .error e => ({ outcome := .error e }, (f.askParts (page.split partSize) deadline world).2)
    | .ok set => f.stream set.blocks set deadline
      (f.askParts (page.split partSize) deadline world).2 : Delivery × σ)
  rcases merge {} (f.askParts (page.split partSize) deadline world).1 with e | set
  · rfl
  · rfl

/-- What a pipeline that is done reports of itself. -/
theorem stream_eq (selected : List Block) (set : BlockSet)
    (hopen : f.isOpen = true ∨ selected = []) :
    f.stream selected set deadline world =
      (deliveryOf (Pipeline.deliver f.source (f.decodeWith set) f.config.fetchers selected deadline
        world).1,
      (Pipeline.deliver f.source (f.decodeWith set) f.config.fetchers selected deadline world).2) := by
  have hnot : ¬(!f.isOpen && !selected.isEmpty) = true := by
    rcases hopen with h | h <;> simp [h]
  rw [stream, if_neg hnot]
  rfl

theorem stream_closed (selected : List Block) (set : BlockSet) (hclosed : f.isOpen = false)
    (hne : selected ≠ []) :
    f.stream selected set deadline world =
      ({ outcome := .error (.sink .outputClosed) }, world) := by
  have hboth : (!f.isOpen && !selected.isEmpty) = true := by simp [hclosed, hne]
  rw [stream, if_pos hboth]
  rfl

/-- What a delivery goes over to when a segment is finished. -/
def nextStage : Except WorkerError Unit → Stage
  | .ok () => .idle
  | .error e => .ended (.error e)

/-- **Whatever a fetcher does for a segment is a delivery of it.** -/
theorem fetchSegment_steps (hf : f.source.Follows deadline node I) (hworld : I world)
    (seg : Segment) (left : List Segment) {p : Pipeline} (hout : p.out = []) (t : Trail) :
    ∃ q t', Transfer.Steps f node ⟨.idle, seg :: left, p, t⟩
        ⟨nextStage (f.fetchSegment seg deadline world).1.outcome, left, q, t'⟩ ∧
      q.out = [] ∧ q.delivered = p.delivered ++ (f.fetchSegment seg deadline world).1.payloads ∧
      I (f.fetchSegment seg deadline world).2 := by
  obtain ⟨arrived, hreplies, hparts, hblocks, hI⟩ := f.askParts_replies hf hworld seg.parts
  have hgathered : Transfer.Steps f node ⟨.idle, seg :: left, p, t⟩
      ⟨.gathering seg [] arrived, left, p, t ++ { asked := seg.questions } ++ { heard := arrived }⟩ :=
    .head .begin (Transfer.reply_steps arrived [] _ hparts hblocks)
  rw [fetchSegment, hreplies]
  rcases hmerge : merge seg.known (arrived.map Prod.snd) with e | set
  · simp only
    exact ⟨p, _, hgathered.tail (.refuse e hmerge), hout, (List.append_nil _).symm, hI⟩
  -- without a receiver nothing can be sent, unless there is nothing to send
  by_cases hopen : f.isOpen = true ∨ seg.selected set = []
  swap
  · rw [not_or, Bool.not_eq_true] at hopen
    simp only [f.stream_closed (seg.selected set) set hopen.1 hopen.2]
    exact ⟨p, _, hgathered.tail (.close set hmerge hopen.1 hopen.2), hout,
      (List.append_nil _).symm, hI⟩
  simp only [f.stream_eq (seg.selected set) set hopen]
  obtain ⟨hsteps, hdone, hI'⟩ := Pipeline.deliver_steps (f.decodeWith set) hf.timeless hf.search
    f.config.fetchers (seg.selected set) hI
  set e := (Pipeline.deliver f.source (f.decodeWith set) f.config.fetchers (seg.selected set)
    deadline (f.askParts seg.parts deadline world).2).1 with he
  obtain ⟨t', hstream⟩ := Transfer.stream_steps hsteps seg left p.delivered p.journal
    (t ++ { asked := seg.questions } ++ { heard := arrived })
  -- the pipeline begins anew, and what was delivered before stays
  rw [← Pipeline.restart_eq_after hout] at hstream
  have hstreamed := (hgathered.tail (.stream set hmerge hopen)).trans hstream
  obtain ⟨hdrained, hempty⟩ := Pipeline.isDone_iff.1 hdone
  refine ⟨e.after p.delivered p.journal, t', ?_, hempty, rfl, hI'⟩
  by_cases hfailures : e.failures = []
  · have hstage : nextStage (deliveryOf e).outcome = .idle := by simp [deliveryOf, hfailures, nextStage]
    rw [hstage]
    exact hstreamed.tail (.settle hdrained hfailures)
  · have hstage : nextStage (deliveryOf e).outcome =
        .ended (.error (.incomplete .transactions (e.failures.map failureText))) := by
      simp [deliveryOf, hfailures, nextStage]
    rw [hstage]
    exact hstreamed.tail (.fail hdrained hfailures)

/-- The segments of a range. -/
def segments (range : HeightRange) : List Segment :=
  (range.split f.config.bigPage).map .ofPage

theorem fetchPages_cons (page : HeightRange) (rest : List HeightRange) :
    f.fetchPages deadline (page :: rest) world =
      match (f.fetchSegment (.ofPage page) deadline world).1.outcome with
      | .error _ => f.fetchSegment (.ofPage page) deadline world
      | .ok () =>
        let d := (f.fetchSegment (.ofPage page) deadline world).1
        let others := f.fetchPages deadline rest (f.fetchSegment (.ofPage page) deadline world).2
        ({ others.1 with
          payloads := d.payloads ++ others.1.payloads
          journal := d.journal ++ others.1.journal }, others.2) := by
  rw [← fetchPage_eq]
  show (match (f.fetchPage page deadline world).1.outcome with
    | .error _ => pure (f.fetchPage page deadline world).1
    | .ok () => do
      let others ← f.fetchPages deadline rest
      return { others with
        payloads := (f.fetchPage page deadline world).1.payloads ++ others.payloads
        journal := (f.fetchPage page deadline world).1.journal ++ others.journal } :
      StateM σ Delivery) (f.fetchPage page deadline world).2 = _
  rcases (f.fetchPage page deadline world).1.outcome with e | u
  · rfl
  · rfl

/-- **Whatever a fetcher does for a range is a delivery of its pages.** -/
theorem fetchPages_steps (hf : f.source.Follows deadline node I) (pages : List HeightRange) :
    ∀ {world : σ} {p : Pipeline} {t : Trail}, I world → p.out = [] →
      ∃ left q t', Transfer.Steps f node ⟨.idle, pages.map .ofPage, p, t⟩
          ⟨.ended (f.fetchPages deadline pages world).1.outcome, left, q, t'⟩ ∧
        q.out = [] ∧ q.delivered = p.delivered ++ (f.fetchPages deadline pages world).1.payloads ∧
        I (f.fetchPages deadline pages world).2 := by
  induction pages with
  | nil =>
    intro world p t hworld hout
    exact ⟨[], p, t, .single .finish, hout, (List.append_nil _).symm, hworld⟩
  | cons page rest ih =>
    intro world p t hworld hout
    obtain ⟨q, t', hsteps, hout', hdelivered, hI⟩ :=
      f.fetchSegment_steps hf hworld (.ofPage page) (rest.map .ofPage) hout t
    rw [fetchPages_cons]
    rcases houtcome : (f.fetchSegment (.ofPage page) deadline world).1.outcome with e | u
    · rw [houtcome] at hsteps
      simp only [houtcome]
      exact ⟨_, q, t', hsteps, hout', hdelivered, hI⟩
    · rw [houtcome] at hsteps
      obtain ⟨left, q', t'', hsteps', hout'', hdelivered', hI'⟩ := ih (t := t') hI hout'
      refine ⟨left, q', t'', hsteps.trans hsteps', hout'', ?_, hI'⟩
      rw [hdelivered', hdelivered, List.append_assoc]

/-- **A range is fetched by a delivery that comes to its end.** -/
theorem fetch_steps (hf : f.source.Follows deadline node I) (world : σ) (hworld : I world)
    (range : HeightRange) :
    ∃ s, Transfer.Steps f node (Transfer.start f (f.segments range)) s ∧ s.Over ∧
      s.stage = .ended (f.fetch range deadline world).1.outcome ∧
      s.trail.sent = (f.fetch range deadline world).1.payloads := by
  obtain ⟨left, q, t, hsteps, hout, hdelivered, -⟩ := f.fetchPages_steps hf
    (range.split f.config.bigPage) (p := .start f.config.fetchers []) (t := {}) hworld rfl
  have hkept := (Transfer.kept_start f (f.segments range)).steps hsteps
  have hsent : t.sent = q.delivered := by
    rw [hkept.sent, Pipeline.sent, hout, List.append_nil]
  exact ⟨_, hsteps, ⟨⟨_, rfl⟩, hout, hsent.symm⟩, rfl, hsent.trans hdelivered⟩

/-- Nothing happens if there is nothing to ask. -/
theorem askParts_nil : f.askParts [] deadline world = ([], world) := by
  have hnext : (Crew.ofList ([] : List (Activity σ BlocksReply))).next none world =
      (none, Crew.ofList [], world) := by
    rw [Crew.next]
    rfl
  have hfinish : (Crew.ofList ([] : List (Activity σ BlocksReply))).finish world = ([], world) := by
    rw [Crew.finish]
    split
    · rename_i hsome
      cases hsome.symm.trans hnext
    · rename_i hnone
      cases hnone.symm.trans hnext
      rfl
  rw [askParts, List.map_nil, hfinish]
  rfl

theorem merge_nil (set : BlockSet) : merge set [] = .ok set := rfl

/-- What a fetcher does once it has the newest blocks. -/
theorem fetchLatest_ok {newest : List Block} {q : LatestQuery}
    (hreply : ((f.source.blocks {} partSize deadline).run world).1 = .ok newest) :
    f.fetchLatest q deadline world =
      if (({} : BlockSet).extend newest).isEmpty then
        ({}, ((f.source.blocks {} partSize deadline).run world).2)
      else
        f.fetchSegment (.sinceLast f.config.window q (({} : BlockSet).extend newest)) deadline
          ((f.source.blocks {} partSize deadline).run world).2 := by
  set world' := ((f.source.blocks {} partSize deadline).run world).2 with hworld'
  set known := ({} : BlockSet).extend newest with hknown
  have hrun : (f.source.blocks {} partSize deadline).run world = (.ok newest, world') :=
    Prod.ext hreply rfl
  simp only [fetchLatest, bind, StateT.bind, hrun, ← hknown]
  split
  · rfl
  · rw [fetchSegment, Segment.sinceLast]
    set first := max (startingHeight q.lastHeight f.config.window known.highest) 1
    by_cases hgap : first < known.lowest
    · simp only [if_pos hgap, gather]
      set asked := f.askParts (({ first, last := known.lowest - 1 } : HeightRange).split partSize)
        deadline world' with hasked
      show (match merge known asked.1 with
        | .error e => pure { outcome := .error e }
        | .ok set => f.stream (set.blocks.filter fun b => first ≤ b.height) set deadline :
          StateM σ Delivery) asked.2 = _
      rcases merge known asked.1 with e | set
      · rfl
      · rfl
    · simp only [if_neg hgap, askParts_nil, merge_nil]
      rfl

theorem fetchLatest_error {e : NodeError} {q : LatestQuery}
    (hreply : ((f.source.blocks {} partSize deadline).run world).1 = .error e) :
    f.fetchLatest q deadline world =
      ({ outcome := .error (.node e) }, ((f.source.blocks {} partSize deadline).run world).2) := by
  set world' := ((f.source.blocks {} partSize deadline).run world).2 with hworld'
  have hrun : (f.source.blocks {} partSize deadline).run world = (.error e, world') :=
    Prod.ext hreply rfl
  simp only [fetchLatest, bind, StateT.bind, hrun]
  rfl

/-- **The newest blocks are fetched by a delivery that comes to its end.** -/
theorem fetchLatest_steps (hf : f.source.Follows deadline node I) (world : σ) (hworld : I world)
    (q : LatestQuery) :
    ∃ s, Transfer.Steps f node (Transfer.startLatest f q) s ∧ s.Over ∧
      s.stage = .ended (f.fetchLatest q deadline world).1.outcome ∧
      s.trail.sent = (f.fetchLatest q deadline world).1.payloads := by
  obtain ⟨hreply, hI⟩ := (hf.blocks {} partSize).run hf.timeless hworld
  rcases hnewest : ((f.source.blocks {} partSize deadline).run world).1 with e | newest
  · rw [hnewest] at hreply
    rw [f.fetchLatest_error hnewest]
    exact ⟨_, .single (.unreachable e hreply), ⟨⟨_, rfl⟩, rfl, rfl⟩, rfl, rfl⟩
  rw [hnewest] at hreply
  rw [f.fetchLatest_ok hnewest]
  cases hempty : (({} : BlockSet).extend newest).isEmpty with
  | true => exact ⟨_, .single (.empty newest hreply hempty), ⟨⟨_, rfl⟩, rfl, rfl⟩, rfl, rfl⟩
  | false =>
    rw [if_neg Bool.false_ne_true]
    obtain ⟨p, t, hsteps, hout, hdelivered, -⟩ := f.fetchSegment_steps hf hI
      (.sinceLast f.config.window q (({} : BlockSet).extend newest)) []
      (p := .start f.config.fetchers []) rfl
      (({ asked := [.blocks {} partSize] } : Trail) ++ { heard := [({}, .ok newest)] })
    have hall : Transfer.Steps f node (Transfer.startLatest f q) _ :=
      .head (.arrive newest hreply hempty) hsteps
    have hkept := (Transfer.kept_startLatest f q).steps hall
    have hsent : t.sent = p.delivered := by
      rw [hkept.sent, Pipeline.sent, hout, List.append_nil]
    rcases houtcome : (f.fetchSegment (.sinceLast f.config.window q (({} : BlockSet).extend newest))
      deadline ((f.source.blocks {} partSize deadline).run world).2).1.outcome with e | u
    · rw [houtcome] at hall
      exact ⟨_, hall, ⟨⟨_, rfl⟩, hout, hsent.symm⟩, rfl, hsent.trans hdelivered⟩
    · rw [houtcome] at hall
      exact ⟨_, hall.tail .finish, ⟨⟨_, rfl⟩, hout, hsent.symm⟩, rfl, hsent.trans hdelivered⟩

end RangeFetcher

end ChainIndex
