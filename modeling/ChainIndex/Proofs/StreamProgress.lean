import ChainIndex.Delivery.Streaming
import ChainIndex.Indexer
import ChainIndex.Proofs.PipelineProgress
import Mathlib.Data.Finset.Card
import Mathlib.Data.Finset.Range
import Mathlib.Data.List.Basic
import Mathlib.Logic.Relation

/-!
# A streamed task never gets stuck

The parts of a streamed task wait for one another, and both the producer and the decoder wait for room
in the queue of payloads. But the forwarder waits for nobody as long as there is something to take, and
whoever takes from a queue stays until all who send to it have left (`Sane`). So

* nobody ever sends to a queue from which nobody will take (`Sane.not_severed`);
* one of the parts can go on until the task has ended (`Sane.exists_step`): a part can only wait for
  parts nearer to the sink, or for those before it to close its queue;
* each step leaves less to do (`step_effort`), so no run goes on for ever;
* the sink is sent what the forwarder took, in its order (`Forwarded`).

`streams_to_the_end`: **a streamed task ends, whatever the searches and the sink answer**, and its
responses are those of what its pipeline delivered.
-/

namespace ChainIndex

/-! ## What a move of the pipeline leaves alone -/

namespace Pipeline

variable {decoder : RawTransaction → Except DecodeError (Measured Transaction)} {p q : Pipeline}
  {m : Move}

theorem Moved.free (h : Moved decoder p m q) {i : Nat} (hfree : p.fetchers[i]? = some .free)
    (hm : m ≠ .take i) : q.fetchers[i]? = some .free := by
  have hset {place : Nat} (x : Fetch) (hne : place ≠ i) :
      (p.withFetcher place x).fetchers[i]? = some .free := by
    rw [withFetcher, List.getElem?_set_ne hne]
    exact hfree
  have hother {place : Nat} {x : Fetch} (hx : p.fetchers[place]? = some x)
      (hbusy : x.isFree = false) : place ≠ i := by
    rintro rfl
    rw [Option.some.inj (hx.symm.trans hfree)] at hbusy
    cases hbusy
  cases h with
  | passBlock | queueSearch | decode | drop | passOn | forward => exact hfree
  | take place s rest hsearches hplace =>
    exact hset _ fun heq => hm (heq ▸ rfl)
  | found place s txs hasking => exact hset _ (hother hasking rfl)
  | lost place s e hasking => exact hset _ (hother hasking rfl)
  | leave place hhanding => exact hset _ (hother hhanding rfl)
  | hand place tx txs hhanding hroom => exact hset _ (hother hhanding rfl)

theorem Moved.searches_nil (h : Moved decoder p m q) (hnone : p.searches = [])
    (hm : m ≠ .produce) : q.searches = [] := by
  cases h with
  | passBlock | queueSearch => exact absurd rfl hm
  | take place s rest hsearches hplace =>
    rw [hsearches] at hnone
    cases hnone
  | _ => exact hnone

theorem Moved.delivered (h : Moved decoder p m q) (hm : m ≠ .forward) :
    q.delivered = p.delivered := by
  cases h with
  | forward => exact absurd rfl hm
  | _ => rfl

end Pipeline

/-! ## Sending one payload after the other -/

theorem Sending.sendAll_concat {ρ : Type} (k : Sink ρ) (xs : List Payload) (x : Payload)
    (s : Sending ρ) :
    s.sendAll k (xs ++ [x]) =
      match s.sendAll k xs with
      | (.ok (), t) => t.send k x
      | (.error e, t) => (.error e, t) := by
  induction xs generalizing s with
  | nil =>
    show (match s.send k x with
      | (.ok (), t) => (.ok (), t)
      | (.error e, t) => (.error e, t)) = s.send k x
    rcases s.send k x with ⟨_ | _, t⟩ <;> rfl
  | cons y ys ih =>
    rw [List.cons_append, sendAll, sendAll]
    rcases s.send k y with ⟨_ | _, t⟩
    · rfl
    · exact ih t

namespace Streaming

variable {ρ : Type} {k : Sink ρ} {s₀ : Sending ρ} {s t : Streaming ρ}
  {decoder : RawTransaction → Except DecodeError (Measured Transaction)} {m : Pipeline.Move}
  {q : Pipeline}

@[simp] theorem after_pipeline : (s.after m q).pipeline = q := by cases m <;> rfl
@[simp] theorem after_producer : (s.after m q).producer = s.producer := by cases m <;> rfl
@[simp] theorem after_left : (s.after m q).left = s.left := by cases m <;> rfl
@[simp] theorem after_decoderLeft : (s.after m q).decoderLeft = s.decoderLeft := by cases m <;> rfl
@[simp] theorem after_refused : (s.after m q).refused = s.refused := by cases m <;> rfl
@[simp] theorem after_sending : (s.after m q).sending = s.sending := by cases m <;> rfl
@[simp] theorem after_outcome : (s.after m q).outcome = s.outcome := by cases m <;> rfl

/-! ## Who takes from a queue stays until it is closed -/

/-- What holds of a streamed task wherever it is. -/
structure Sane (s : Streaming ρ) : Prop where
  able : s.pipeline.Able
  /-- The lock is held by a worker that waits for a search. -/
  holder : ∀ place, s.holder = some place → s.Waits place
  /-- A worker leaves when the queue of searches is closed and empty. -/
  left : ∀ place ∈ s.left, s.pipeline.fetchers[place]? = some .free ∧ s.SearchesClosed ∧
    s.pipeline.searches = []
  closed : s.SearchesClosed → s.pipeline.plan = []
  joined : s.producer = .awaiting → s.RawClosed
  /-- The decoder leaves when the queue of transactions is closed and empty. -/
  decoder : s.decoderLeft = true →
    s.RawClosed ∧ s.pipeline.raw = [] ∧ s.pipeline.decoded = none
  returned : ∀ outcome, s.producer = .returned outcome →
    s.decoderLeft = true ∧ outcome = (RangeFetcher.deliveryOf s.pipeline).outcome
  /-- The forwarder leaves when the queue of payloads is closed and empty. -/
  forwarder : s.forwarder = .gone → s.OutClosed ∧ s.pipeline.out = []
  finished : s.outcome ≠ none → s.forwarder = .gone

theorem sane_start {c : Capacities} (hsearches : 0 < c.searches) (hraw : 0 < c.raw)
    (hout : 0 < c.out) (workers : Nat) (bs : List Block) (s₀ : Sending ρ) :
    (start c workers bs s₀).Sane where
  able := ⟨hsearches, hraw, hout, (Pipeline.able_start workers bs).fetchers⟩
  holder := nofun
  left := nofun
  closed h := absurd rfl h
  joined := nofun
  decoder := nofun
  returned := nofun
  forwarder := nofun
  finished h := absurd rfl h

/-- The workers leave after the producer has queued everything. -/
theorem Sane.searchesClosed (hs : s.Sane) (h : s.RawClosed) : s.SearchesClosed :=
  (hs.left 0 (h 0 hs.able.fetchers)).2.1

theorem Sane.free_of_rawClosed (hs : s.Sane) (h : s.RawClosed) {place : Nat} {x : Fetch}
    (hx : s.pipeline.fetchers[place]? = some x) : x = .free := by
  have hplace := h place (List.getElem?_eq_some_iff.1 hx).1
  exact Option.some.inj (hx.symm.trans (hs.left place hplace).1)

/-- When the workers have left, only the decoder and the forwarder move anything. -/
theorem Sane.late_move (hs : s.Sane) (h : s.RawClosed) (hallowed : s.Allows m)
    (hm : Pipeline.Moved decoder s.pipeline m q) : m = .decode ∨ m = .pass ∨ m = .forward := by
  cases hm with
  | passBlock | queueSearch => exact absurd hallowed (hs.searchesClosed h)
  | take place page rest hsearches hfree =>
    have hplace := h place (List.getElem?_eq_some_iff.1 hfree).1
    exact absurd hplace (hs.holder place hallowed).2
  | found place page txs hasking => cases hs.free_of_rawClosed h hasking
  | lost place page e hasking => cases hs.free_of_rawClosed h hasking
  | leave place hhanding => cases hs.free_of_rawClosed h hhanding
  | hand place tx txs hhanding hroom => cases hs.free_of_rawClosed h hhanding
  | decode | drop => exact .inl rfl
  | passOn => exact .inr (.inl rfl)
  | forward => exact .inr (.inr rfl)

/-- When the decoder has left too, only the forwarder does. -/
theorem Sane.last_move (hs : s.Sane) (h : s.decoderLeft = true) (hallowed : s.Allows m)
    (hm : Pipeline.Moved decoder s.pipeline m q) : m = .forward := by
  rcases hs.late_move (hs.decoder h).1 hallowed hm with rfl | rfl | rfl
  · cases h.symm.trans hallowed
  · cases h.symm.trans hallowed
  · rfl

/-- When the forwarder has left, nothing moves any more. -/
theorem Sane.no_move (hs : s.Sane) (h : s.forwarder = .gone) (hallowed : s.Allows m)
    (hm : Pipeline.Moved decoder s.pipeline m q) : False := by
  cases hs.last_move (hs.forwarder h).1.2 hallowed hm
  cases h.symm.trans hallowed

theorem Sane.move (hs : s.Sane) (hallowed : s.Allows m)
    (hm : Pipeline.Moved decoder s.pipeline m q) : (s.after m q).Sane := by
  have hlength := (Pipeline.step_shape hm).2
  have hraw (h : s.RawClosed) : (s.after m q).RawClosed := by
    intro place hplace
    rw [after_left]
    rw [after_pipeline, hlength] at hplace
    exact h place hplace
  refine ⟨?_, ?_, ?_, ?_, ?_, ?_, ?_, ?_, ?_⟩
  · rw [after_pipeline]
    exact hs.able.step hm
  · intro place hplace
    have hholder : s.holder = some place ∧ m ≠ .take place := by
      cases m <;> first | cases hplace | exact ⟨hplace, nofun⟩
    obtain ⟨hfree, hhere⟩ := hs.holder place hholder.1
    rw [Waits, after_pipeline, after_left]
    exact ⟨hm.free hfree hholder.2, hhere⟩
  · intro place hplace
    rw [after_left] at hplace
    obtain ⟨hfree, hclosed, hsearches⟩ := hs.left place hplace
    rw [SearchesClosed, after_pipeline, after_producer]
    refine ⟨hm.free hfree ?_, hclosed, hm.searches_nil hsearches ?_⟩
    · rintro rfl
      exact (hs.holder place hallowed).2 hplace
    · rintro rfl
      exact hclosed hallowed
  · intro hclosed
    rw [SearchesClosed, after_producer] at hclosed
    rw [after_pipeline]
    exact List.suffix_nil.1 (hs.closed hclosed ▸ Pipeline.step_plan hm)
  · intro hawaiting
    rw [after_producer] at hawaiting
    exact hraw (hs.joined hawaiting)
  · intro hleft
    rw [after_decoderLeft] at hleft
    obtain ⟨hclosed, hnone, hdecoded⟩ := hs.decoder hleft
    refine ⟨hraw hclosed, ?_⟩
    cases hs.last_move hleft hallowed hm
    cases hm
    exact ⟨hnone, hdecoded⟩
  · intro outcome houtcome
    rw [after_producer] at houtcome
    obtain ⟨hleft, rfl⟩ := hs.returned outcome houtcome
    refine ⟨by rw [after_decoderLeft]; exact hleft, ?_⟩
    cases hs.last_move hleft hallowed hm
    cases hm
    rfl
  · intro hgone
    -- a move of the forwarder leaves it with something in its hands
    cases m with
    | forward =>
      cases hm with
      | forward x rest hout =>
        rw [after, hout] at hgone
        cases hgone
    | produce | take | answer | hand | decode | pass => exact (hs.no_move hgone hallowed hm).elim
  · intro hfinished
    rw [after_outcome] at hfinished
    exact (hs.no_move (hs.finished hfinished) hallowed hm).elim

theorem Sane.step (hs : s.Sane) (h : Step k decoder s t) : t.Sane := by
  cases h with
  | move m q hallowed hq => exact hs.move hallowed (Pipeline.moved_of_step hq)
  | close hproducer hplan =>
    refine { hs with left := ?_, closed := ?_, joined := nofun, returned := nofun, forwarder := ?_ }
    · intro place hplace
      exact absurd hproducer (hs.left place hplace).2.1
    · intro _
      exact hplan
    · intro hgone
      obtain ⟨⟨⟨outcome, houtcome⟩, -⟩, -⟩ := hs.forwarder hgone
      cases hproducer.symm.trans houtcome
  | lock place hholder hwaits =>
    refine { hs with holder := ?_ }
    rintro _ ⟨⟩
    exact hwaits
  | leave place hholder hwaits hsearches hclosed =>
    have hraw (h : s.RawClosed) :
        RawClosed { s with holder := none, left := place :: s.left } :=
      fun i hi => List.mem_cons_of_mem _ (h i hi)
    refine { hs with holder := nofun, left := ?_, joined := ?_, decoder := ?_ }
    · intro i hi
      rcases List.mem_cons.1 hi with rfl | hi
      · exact ⟨hwaits.1, hclosed, hsearches⟩
      · exact hs.left i hi
    · intro hawaiting
      exact hraw (hs.joined hawaiting)
    · intro hleft
      exact ⟨hraw (hs.decoder hleft).1, (hs.decoder hleft).2⟩
  | join hproducer hworkers =>
    refine { hs with left := ?_, closed := ?_, joined := fun _ => hworkers, returned := nofun, forwarder := ?_ }
    · intro place hplace
      exact ⟨(hs.left place hplace).1, nofun, (hs.left place hplace).2.2⟩
    · intro _
      exact hs.closed (hs.searchesClosed hworkers)
    · intro hgone
      obtain ⟨⟨⟨outcome, houtcome⟩, -⟩, -⟩ := hs.forwarder hgone
      cases hproducer.symm.trans houtcome
  | settle hhere hraw hdecoded hclosed =>
    refine { hs with decoder := fun _ => ⟨hclosed, hraw, hdecoded⟩, returned := ?_, forwarder := ?_ }
    · intro outcome houtcome
      exact ⟨rfl, (hs.returned outcome houtcome).2⟩
    · intro hgone
      exact ⟨⟨(hs.forwarder hgone).1.1, rfl⟩, (hs.forwarder hgone).2⟩
  | result hproducer hdecoder =>
    have hclosed := hs.joined hproducer
    refine { hs with left := ?_, closed := ?_, joined := nofun, returned := ?_, forwarder := ?_ }
    · intro place hplace
      exact ⟨(hs.left place hplace).1, nofun, (hs.left place hplace).2.2⟩
    · intro _
      exact hs.closed (hs.searchesClosed hclosed)
    · rintro _ ⟨⟩
      exact ⟨hdecoder, rfl⟩
    · intro hgone
      exact ⟨⟨⟨_, rfl⟩, hdecoder⟩, (hs.forwarder hgone).2⟩
  | send x hforwarder hrefused =>
    refine { hs with forwarder := nofun, finished := ?_ }
    intro h
    cases hforwarder.symm.trans (hs.finished h)
  | drop x e hforwarder hrefused =>
    refine { hs with forwarder := nofun, finished := ?_ }
    intro h
    cases hforwarder.symm.trans (hs.finished h)
  | depart hforwarder hout hclosed =>
    exact { hs with forwarder := fun _ => ⟨hclosed, hout⟩, finished := fun _ => rfl }
  | conclude outcome hproducer hforwarder hgoing =>
    exact { hs with finished := fun _ => hforwarder }

/-- **Nobody sends to a queue from which nobody will take.** -/
theorem Sane.not_severed (hs : s.Sane) : ¬s.Severed := by
  intro h
  cases h with
  | search page rest hproducer hplan hworkers => exact hs.searchesClosed hworkers hproducer
  | block b rest hproducer hplan hforwarder =>
    obtain ⟨⟨⟨outcome, houtcome⟩, -⟩, -⟩ := hs.forwarder hforwarder
    cases hproducer.symm.trans houtcome
  | raw place tx txs hhanding hdecoder =>
    cases hs.free_of_rawClosed (hs.decoder hdecoder).1 hhanding
  | transaction x hdecoder hdecoded hforwarder =>
    cases hdecoder.symm.trans (hs.forwarder hforwarder).1.2

/-! ## Somebody goes on -/

/-- The producer can do its next job when nothing is queued. -/
theorem Sane.exists_produce (hs : s.Sane) (hout : s.pipeline.out = [])
    (hsearches : s.pipeline.searches = []) (hplan : s.pipeline.plan ≠ []) :
    ∃ q, Pipeline.Moved decoder s.pipeline .produce q := by
  rcases hjobs : s.pipeline.plan with _ | ⟨job, rest⟩
  · exact absurd hjobs hplan
  · cases job with
    | pass b => exact ⟨_, .passBlock b rest hjobs (hs.able.hasRoom hout)⟩
    | search page => exact ⟨_, .queueSearch page rest hjobs (hs.able.hasSearchRoom hsearches)⟩

theorem exists_step_of_moved (hallowed : s.Allows m)
    (hm : Pipeline.Moved decoder s.pipeline m q) : ∃ t, Step k decoder s t :=
  ⟨_, .move m q hallowed hm.step⟩

/-- The forwarder waits for nobody while it has something to send or to take. Where it has left, the
task ends. -/
theorem Sane.exists_forwarder_step (hs : s.Sane) (hgoing : s.outcome = none)
    (h : s.forwarder = .receiving → s.pipeline.out ≠ []) : ∃ t, Step k decoder s t := by
  rcases hforwarder : s.forwarder with _ | x | _
  case receiving =>
    obtain ⟨x, rest, hout⟩ := List.exists_cons_of_ne_nil (h hforwarder)
    exact exists_step_of_moved (m := .forward) hforwarder (.forward x rest hout)
  case holding =>
    rcases hrefused : s.refused with _ | e
    · exact ⟨_, .send x hforwarder hrefused⟩
    · exact ⟨_, .drop x e hforwarder hrefused⟩
  case gone =>
    obtain ⟨⟨⟨outcome, houtcome⟩, -⟩, -⟩ := hs.forwarder hforwarder
    exact ⟨_, .conclude outcome houtcome hforwarder hgoing⟩

/-- After the decoder has left, the producer returns, and then the forwarder leaves. -/
theorem Sane.exists_late_step (hs : s.Sane) (hforwarder : s.forwarder = .receiving)
    (hout : s.pipeline.out = []) (hdecoder : s.decoderLeft = true) :
    ∃ t, Step k decoder s t := by
  have hclosed := (hs.decoder hdecoder).1
  rcases hproducer : s.producer with _ | _ | _ | outcome
  · exact absurd hproducer (hs.searchesClosed hclosed)
  · exact ⟨_, .join hproducer hclosed⟩
  · exact ⟨_, .result hproducer hdecoder⟩
  · exact ⟨_, .depart hforwarder hout ⟨⟨outcome, hproducer⟩, hdecoder⟩⟩

/-- The decoder can pass on or decode when nothing waits for the forwarder. -/
theorem Sane.exists_decoder_step (hs : s.Sane) (hout : s.pipeline.out = [])
    (hdecoder : s.decoderLeft = false) (h : s.pipeline.decoded = none → s.pipeline.raw ≠ []) :
    ∃ t, Step k decoder s t := by
  rcases hdecoded : s.pipeline.decoded with _ | x
  · obtain ⟨tx, rest, hraw⟩ := List.exists_cons_of_ne_nil (h hdecoded)
    rcases hx : decoder tx with e | x
    · exact exists_step_of_moved (m := .decode) hdecoder (.drop tx rest e hdecoded hraw hx)
    · exact exists_step_of_moved (m := .decode) hdecoder (.decode tx rest x hdecoded hraw hx)
  · exact exists_step_of_moved (m := .pass) hdecoder (.passOn x hdecoded (hs.able.hasRoom hout))

/-- A worker that does something can go on when nothing waits for the decoder. -/
theorem Sane.exists_busy_step (hs : s.Sane) (hraw : s.pipeline.raw = [])
    (hbusy : ¬s.pipeline.fetchers.all Fetch.isFree = true) : ∃ t, Step k decoder s t := by
  obtain ⟨x, hx, hbusy⟩ := List.all_eq_false.1 (Bool.eq_false_iff.2 hbusy)
  have hany : ∀ _ : SearchPage, ∃ _ : SearchReply, True := fun _ => ⟨.ok [], trivial⟩
  obtain ⟨m, q, hm, -, hq⟩ :=
    Pipeline.exists_moved_fetcher hs.able hany hraw hx (Bool.eq_false_iff.2 hbusy)
  have hallowed : s.Allows m := by
    cases m with
    | answer | hand => trivial
    | produce | take | decode | pass | forward => cases hm
  exact exists_step_of_moved hallowed hq

/-- While a worker is there and none of them does anything, one can take the lock; and the one that
holds it can take a search, or the producer queues one, or closes the queue. -/
theorem Sane.exists_early_step (hs : s.Sane) (hout : s.pipeline.out = [])
    (hfree : s.pipeline.fetchers.all Fetch.isFree = true) (hopen : ¬s.RawClosed) :
    ∃ t, Step k decoder s t := by
  obtain ⟨place, hplace, hhere⟩ : ∃ place, place < s.pipeline.fetchers.length ∧ place ∉ s.left := by
    simpa [RawClosed] using hopen
  rcases hholder : s.holder with _ | i
  · have hwaits : s.Waits place := by
      refine ⟨?_, hhere⟩
      rw [List.getElem?_eq_getElem hplace]
      exact congrArg some (Fetch.eq_free (List.all_eq_true.1 hfree _ (List.getElem_mem _)))
    exact ⟨_, .lock place hholder hwaits⟩
  have hwaits := hs.holder i hholder
  rcases hsearches : s.pipeline.searches with _ | ⟨page, rest⟩
  swap
  · exact exists_step_of_moved (m := .take i) hholder (.take i page rest hsearches hwaits.1)
  by_cases hproducer : s.producer = .enqueuing
  · by_cases hplan : s.pipeline.plan = []
    · exact ⟨_, .close hproducer hplan⟩
    · obtain ⟨q, hq⟩ : ∃ q, Pipeline.Moved decoder s.pipeline .produce q :=
        hs.exists_produce hout hsearches hplan
      exact exists_step_of_moved (m := .produce) hproducer hq
  · exact ⟨_, .leave i hholder hwaits hsearches hproducer⟩

/-- **One of the parts can go on until the task has ended.** The parts are asked from the last one
backwards, so that nothing waits for the one before. -/
theorem Sane.exists_step (k : Sink ρ)
    (decoder : RawTransaction → Except DecodeError (Measured Transaction)) (hs : s.Sane)
    (hgoing : s.outcome = none) : ∃ t, Step k decoder s t := by
  by_cases hforwarder : s.forwarder = .receiving → s.pipeline.out ≠ []
  · exact hs.exists_forwarder_step hgoing hforwarder
  obtain ⟨hreceiving, hout⟩ : s.forwarder = .receiving ∧ s.pipeline.out = [] := by
    simpa using hforwarder
  by_cases hleft : s.decoderLeft = true
  · exact hs.exists_late_step hreceiving hout hleft
  have hdecoder : s.decoderLeft = false := Bool.eq_false_iff.2 hleft
  by_cases hdecodes : s.pipeline.decoded = none → s.pipeline.raw ≠ []
  · exact hs.exists_decoder_step hout hdecoder hdecodes
  obtain ⟨hdecoded, hraw⟩ : s.pipeline.decoded = none ∧ s.pipeline.raw = [] := by
    simpa using hdecodes
  by_cases hfree : s.pipeline.fetchers.all Fetch.isFree = true
  · by_cases hclosed : s.RawClosed
    · exact ⟨_, .settle hdecoder hraw hdecoded hclosed⟩
    · exact hs.exists_early_step hout hfree hclosed
  · exact hs.exists_busy_step hraw hfree

/-- The end of a task: every part has left, and nothing is left to do. -/
theorem Sane.ended (hs : s.Sane) (h : s.outcome ≠ none) :
    s.pipeline.isDone = true ∧ s.SearchesClosed ∧ s.RawClosed ∧ s.OutClosed ∧
      s.forwarder = .gone := by
  have hforwarder := hs.finished h
  obtain ⟨hclosed, hout⟩ := hs.forwarder hforwarder
  obtain ⟨hrawClosed, hraw, hdecoded⟩ := hs.decoder hclosed.2
  have hsearchesClosed := hs.searchesClosed hrawClosed
  have hsearches := (hs.left 0 (hrawClosed 0 hs.able.fetchers)).2.2
  have hfree : s.pipeline.fetchers.all Fetch.isFree = true := by
    rw [List.all_eq_true]
    intro x hx
    obtain ⟨place, hplace⟩ := List.mem_iff_getElem?.1 hx
    rw [hs.free_of_rawClosed hrawClosed hplace]
    rfl
  refine ⟨?_, hsearchesClosed, hrawClosed, hclosed, hforwarder⟩
  simp [Pipeline.isDone, hs.closed hsearchesClosed, hsearches, hfree, hraw, hdecoded, hout]

/-! ## Every step is progress -/

namespace Producer

/-- What a producer that has enqueued everything still has to do. -/
def rank : Producer → Nat
  | enqueuing => 3
  | joining => 2
  | awaiting => 1
  | returned _ => 0

end Producer

namespace Forwarder

def rank : Forwarder → Nat
  | gone => 0
  | receiving => 1
  | holding _ => 2

/-- What the forwarder took and has not sent yet. -/
def held : Forwarder → List Payload
  | holding x => [x]
  | receiving | gone => []

end Forwarder

/-- The workers that are still there. -/
def staff (s : Streaming ρ) : Finset Nat :=
  Finset.range s.pipeline.fetchers.length \ s.left.toFinset

/-- What is left to do in the pipeline, and besides that. -/
def effort (s : Streaming ρ) : (Nat × Nat) × Nat :=
  (s.pipeline.work,
    s.producer.rank + 2 * s.staff.card + s.holder.isNone.toNat + (!s.decoderLeft).toNat +
      s.forwarder.rank + s.outcome.isNone.toNat)

abbrev Less : (Nat × Nat) × Nat → (Nat × Nat) × Nat → Prop :=
  Prod.Lex (Prod.Lex (· < ·) (· < ·)) (· < ·)

theorem less_wf : WellFounded Less :=
  (Prod.lex (Prod.lex Nat.lt_wfRel Nat.lt_wfRel) Nat.lt_wfRel).wf

theorem staff_leave {place : Nat} (hwaits : s.Waits place) :
    (staff { s with holder := none, left := place :: s.left }).card < s.staff.card := by
  have hlt := (List.getElem?_eq_some_iff.1 hwaits.1).1
  refine Finset.card_lt_card (Finset.ssubset_iff_of_subset ?_ |>.2 ⟨place, ?_, ?_⟩)
  · intro i hi
    simp only [staff, List.toFinset_cons, Finset.mem_sdiff, Finset.mem_insert, not_or] at hi ⊢
    exact ⟨hi.1, hi.2.2⟩
  · simp [staff, hlt, hwaits.2]
  · simp [staff]

/-- **Every step leaves less to do.** -/
theorem step_effort (h : Step k decoder s t) : Less t.effort s.effort := by
  cases h with
  | move m q hallowed hq =>
    apply Prod.Lex.left
    rw [after_pipeline]
    exact Pipeline.work_lt decoder hq
  | close hproducer hplan =>
    apply Prod.Lex.right
    simp only [hproducer, Producer.rank, staff]
    omega
  | lock place hholder hwaits =>
    apply Prod.Lex.right
    simp only [hholder, staff, Option.isNone_none, Option.isNone_some, Bool.toNat_true,
      Bool.toNat_false]
    omega
  | leave place hholder hwaits hsearches hclosed =>
    have hless := staff_leave hwaits
    apply Prod.Lex.right
    simp only [hholder, Option.isNone_none, Option.isNone_some, Bool.toNat_true, Bool.toNat_false]
    omega
  | join hproducer hworkers =>
    apply Prod.Lex.right
    simp only [hproducer, Producer.rank, staff]
    omega
  | settle hhere hraw hdecoded hclosed =>
    apply Prod.Lex.right
    simp only [hhere, staff, Bool.not_true, Bool.not_false, Bool.toNat_true, Bool.toNat_false]
    omega
  | result hproducer hdecoder =>
    apply Prod.Lex.right
    simp only [hproducer, Producer.rank, staff]
    omega
  | send x hforwarder hrefused =>
    apply Prod.Lex.right
    simp only [hforwarder, afterSending, Forwarder.rank, staff]
    omega
  | drop x e hforwarder hrefused =>
    apply Prod.Lex.right
    simp only [hforwarder, Forwarder.rank, staff]
    omega
  | depart hforwarder hout hclosed =>
    apply Prod.Lex.right
    simp only [hforwarder, Forwarder.rank, staff]
    omega
  | conclude outcome hproducer hforwarder hgoing =>
    apply Prod.Lex.right
    simp only [hgoing, staff, Option.isNone_none, Option.isNone_some, Bool.toNat_true,
      Bool.toNat_false]
    omega

/-- No run goes on for ever. -/
theorem acc_step (s : Streaming ρ) : Acc (fun t s => Step k decoder s t) s :=
  (Subrelation.wf step_effort (InvImage.wf effort less_wf)).apply s

/-! ## What the sink is sent -/

/-- What the sink made of the payloads so far. -/
def verdict (s : Streaming ρ) : Except SinkError Unit :=
  s.refused.elim (.ok ()) .error

variable (k s₀) in
/-- The payloads that the forwarder took were sent up to the first one that the sink refused. -/
structure Forwarded (s : Streaming ρ) : Prop where
  going : s.outcome = none → ∃ sent, s.pipeline.delivered = sent ++ s.forwarder.held ∧
    s₀.sendAll k sent = (s.verdict, s.sending)
  finished : ∀ outcome, s.outcome = some outcome →
    (outcome, s.sending) =
      Indexer.respond k s₀ (.many (RangeFetcher.deliveryOf s.pipeline))

theorem forwarded_start (c : Capacities) (workers : Nat) (bs : List Block) :
    Forwarded k s₀ (start c workers bs s₀) where
  going _ := ⟨[], rfl, rfl⟩
  finished := nofun

/-- The last response is the one to a delivery that was sent like this. -/
theorem closing_eq {d : Delivery} (h : s₀.sendAll k d.payloads = (s.verdict, s.sending)) :
    Indexer.respond k s₀ (.many d) = s.closing k d.outcome := by
  rw [Indexer.respond, h]
  unfold closing verdict
  rcases d.outcome with e | ⟨⟩
  · rfl
  · rcases s.refused with _ | e <;> rfl

theorem Forwarded.step (hs : s.Sane) (hf : Forwarded k s₀ s) (h : Step k decoder s t) :
    Forwarded k s₀ t := by
  cases h with
  | move m q hallowed hq =>
    have hm := Pipeline.moved_of_step hq
    refine ⟨fun hgoing => ?_, fun outcome hfinished => ?_⟩
    · rw [after_outcome] at hgoing
      obtain ⟨sent, hdelivered, hsent⟩ := hf.going hgoing
      rw [verdict, after_pipeline, after_refused, after_sending]
      refine ⟨sent, ?_, hsent⟩
      cases m with
      | forward =>
        cases hm with
        | forward x rest hout =>
          have hheld : s.forwarder = .receiving := hallowed
          rw [hheld, Forwarder.held, List.append_nil] at hdelivered
          rw [after, hout, hdelivered]
          rfl
      | produce | take | answer | hand | decode | pass =>
        rw [hm.delivered nofun]
        exact hdelivered
    · rw [after_outcome] at hfinished
      exact (hs.no_move (hs.finished (hfinished ▸ nofun)) hallowed hm).elim
  | close | lock | leave | join | settle => exact ⟨hf.going, hf.finished⟩
  | result hproducer hdecoder => exact ⟨hf.going, hf.finished⟩
  | send x hforwarder hrefused =>
    refine ⟨fun hgoing => ?_, fun outcome hfinished => ?_⟩
    · obtain ⟨sent, hdelivered, hsent⟩ := hf.going hgoing
      rw [hforwarder, Forwarder.held] at hdelivered
      refine ⟨sent ++ [x], hdelivered.trans (List.append_nil _).symm, ?_⟩
      rw [verdict, hrefused] at hsent
      rw [Sending.sendAll_concat, hsent]
      show s.sending.send k x = _
      rw [verdict, afterSending, hrefused]
      rcases s.sending.send k x with ⟨_ | _, sending⟩ <;> rfl
    · have hfinished' : s.outcome = some outcome := hfinished
      cases hforwarder.symm.trans (hs.finished (hfinished' ▸ nofun))
  | drop x e hforwarder hrefused =>
    refine ⟨fun hgoing => ?_, hf.finished⟩
    obtain ⟨sent, hdelivered, hsent⟩ := hf.going hgoing
    rw [hforwarder, Forwarder.held] at hdelivered
    refine ⟨sent ++ [x], hdelivered.trans (List.append_nil _).symm, ?_⟩
    rw [verdict, hrefused] at hsent ⊢
    rw [Sending.sendAll_concat, hsent]
    rfl
  | depart hforwarder hout hclosed =>
    refine ⟨fun hgoing => ?_, hf.finished⟩
    obtain ⟨sent, hdelivered, hsent⟩ := hf.going hgoing
    rw [hforwarder] at hdelivered
    exact ⟨sent, hdelivered, hsent⟩
  | conclude outcome hproducer hforwarder hgoing =>
    refine ⟨nofun, ?_⟩
    rintro _ ⟨⟩
    obtain ⟨sent, hdelivered, hsent⟩ := hf.going hgoing
    rw [hforwarder, Forwarder.held, List.append_nil] at hdelivered
    have hpayloads : (RangeFetcher.deliveryOf s.pipeline).payloads = sent := hdelivered
    rw [(hs.returned outcome hproducer).2]
    rw [← hpayloads] at hsent
    exact (closing_eq hsent).symm

/-! ## Every run -/

variable (k decoder) in
/-- A streamed task that comes from another by any number of steps. -/
abbrev Steps : Streaming ρ → Streaming ρ → Prop :=
  Relation.ReflTransGen (Step k decoder)

theorem Sane.steps (hs : s.Sane) (hf : Forwarded k s₀ s) (h : Steps k decoder s t) :
    t.Sane ∧ Forwarded k s₀ t := by
  induction h with
  | refl => exact ⟨hs, hf⟩
  | tail _ hstep ih => exact ⟨ih.1.step hstep, ih.2.step ih.1 hstep⟩

/-- **A streamed task never gets stuck**, for all blocks, any number of workers, queues that hold at
least something, any replies to the searches and any sink. Wherever it is, nobody sends to a queue from
which nobody will take; until it has ended one of its parts can go on; and no run goes on for ever.
When nobody can go on, nothing is left in any queue, all queues are closed, and the task has ended
with the responses to what was delivered. -/
theorem streams_to_the_end {c : Capacities} (hsearches : 0 < c.searches) (hraw : 0 < c.raw)
    (hout : 0 < c.out) (decoder : RawTransaction → Except DecodeError (Measured Transaction))
    (k : Sink ρ) (workers : Nat) (bs : List Block) (s₀ : Sending ρ) {s : Streaming ρ}
    (h : Steps k decoder (start c workers bs s₀) s) :
    ¬s.Severed ∧
      (s.outcome = none → ∃ t, Step k decoder s t) ∧
      Acc (fun t s => Step k decoder s t) s ∧
      ((∀ t, ¬Step k decoder s t) →
        s.pipeline.isDone = true ∧ s.SearchesClosed ∧ s.RawClosed ∧ s.OutClosed ∧
          s.forwarder = .gone ∧
          ∃ outcome, s.outcome = some outcome ∧
            (outcome, s.sending) =
              Indexer.respond k s₀ (.many (RangeFetcher.deliveryOf s.pipeline))) := by
  obtain ⟨hs, hf⟩ := (sane_start hsearches hraw hout workers bs s₀).steps
    (forwarded_start c workers bs) h
  refine ⟨hs.not_severed, hs.exists_step k decoder, acc_step s, fun hstuck => ?_⟩
  have hfinished : s.outcome ≠ none := by
    intro hgoing
    obtain ⟨t, ht⟩ := hs.exists_step k decoder hgoing
    exact hstuck t ht
  obtain ⟨hdone, hsearchesClosed, hrawClosed, houtClosed, hforwarder⟩ := hs.ended hfinished
  obtain ⟨outcome, houtcome⟩ := Option.ne_none_iff_exists'.1 hfinished
  exact ⟨hdone, hsearchesClosed, hrawClosed, houtClosed, hforwarder, outcome, houtcome,
    hf.finished outcome houtcome⟩

/-- The sink refuses the first block; the task goes on nevertheless. -/
theorem streams_to_the_end_refused :
    let k : Sink Unit := { accept := fun _ s => (.error .receiverClosed, s) }
    let decoder := Decoder.decode {}
    let s₀ := start {} 1 [{ height := 5 }] { id := default, sink := () }
    ∃ s, Steps k decoder s₀ s ∧ s.refused = some .receiverClosed ∧ s.outcome = none ∧
      ∃ t, Step k decoder s t := by
  intro k decoder s₀
  have h : Steps k decoder s₀ _ :=
    .head (.move .produce _ rfl rfl) (.head (.move .forward _ rfl rfl) (.single (.send _ rfl rfl)))
  have hgoes := streams_to_the_end (by decide) (by decide) (by decide) decoder k 1 _ _ h
  exact ⟨_, h, rfl, rfl, hgoes.2.1 rfl⟩

end Streaming

end ChainIndex
