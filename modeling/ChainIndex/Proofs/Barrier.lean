import ChainIndex.Proofs.BlockSets
import ChainIndex.Proofs.Fetching

/-!
# Nothing of a page is passed on before all of it is known

The parts of a page are asked for at the same time and answered in any order. If one of them cannot be
had, the delivery stops there (`StoppedAt`): the pages before it have been delivered, its other parts
have been waited for, and that is all. What is told of it are the messages of the failing parts.

* `stopped_of_missed`: so ends every delivery that misses a part.
* `fetchPages_stop`: what lies behind the page does not matter to the fetcher.
* `metadata_barrier`: **the barrier**, for ranges and for the newest blocks.
-/

namespace ChainIndex

theorem WorkerError.foldl_joined (parts : List String) :
    ∀ text : String, parts.foldl (fun text part => text ++ part ++ " , ") text =
      text ++ String.join (parts.map (· ++ " , ")) := by
  induction parts with
  | nil => exact fun text => (String.append_empty).symm
  | cons part parts ih =>
    intro text
    rw [List.foldl_cons, ih, List.map_cons, String.join_cons, String.append_assoc,
      String.append_assoc, String.append_assoc]

/-- The message of an incomplete range names each part once, in their order. -/
theorem WorkerError.message_incomplete (what : Missing) (parts : List String) :
    (WorkerError.incomplete what parts).message =
      what.label ++ ": - " ++ String.join (parts.map (· ++ " , ")) :=
  foldl_joined parts _

variable {σ : Type}

namespace Transfer

/-- Some blocks could not be had. -/
def Missed (s : Transfer) : Prop :=
  ∃ x ∈ s.trail.heard, ∃ e, x.2 = .error e

/-- How a delivery stops at a page: the pages before it were delivered; all parts of the page were asked
for and answered, some of them with errors, which are told in the order of their arrival; nothing else
was asked, found or sent. -/
structure StoppedAt (f : RangeFetcher σ) (node : Behavior) (before : List HeightRange)
    (page : HeightRange) (done : List Report) (arrived : List (HeightRange × BlocksReply))
    (s : Transfer) : Prop where
  pages : done.map Report.segment = before.map Segment.ofPage
  complete : ∀ r ∈ done, r.Complete f node
  answered : (arrived.map Prod.fst).Perm (page.split RangeFetcher.partSize)
  replies : ∀ x ∈ arrived, node.blocks x.1 0 x.2
  asked : s.trail.asked = (done.flatMap fun r => r.trail.asked) ++
    (page.split RangeFetcher.partSize).map fun part => .blocks part 0
  heard : s.trail.heard = done.flatMap Report.heard ++ arrived
  found : s.trail.found = done.flatMap Report.found
  sent : s.trail.sent = done.flatMap Report.sent
  errors : RangeFetcher.errorsOf (arrived.map Prod.snd) ≠ []
  outcome : s.stage = .ended (.error (.incomplete .blocks
    (RangeFetcher.errorsOf (arrived.map Prod.snd))))

variable {f : RangeFetcher σ} {node : Behavior} {s : Transfer}

/-- Who has all its blocks has missed nothing. -/
theorem not_missed_of_merge {set merged : BlockSet} {arrived : List (HeightRange × BlocksReply)}
    (h : RangeFetcher.merge set (arrived.map Prod.snd) = .ok merged) :
    ¬∃ x ∈ arrived, ∃ e, x.2 = .error e := by
  rintro ⟨x, hx, e, he⟩
  obtain ⟨bs, hbs⟩ := RangeFetcher.answered_of_merge h x hx
  rw [he] at hbs
  cases hbs

theorem not_missed_of_complete {done : List Report} (h : ∀ r ∈ done, r.Complete f node) :
    ¬∃ x ∈ done.flatMap Report.heard, ∃ e, x.2 = .error e := by
  rintro ⟨x, hx, he⟩
  obtain ⟨r, hr, hxr⟩ := List.mem_flatMap.1 hx
  exact not_missed_of_merge (h r hr).merged ⟨x, hxr, he⟩

/-- What happened when a delivery ended because of a segment. -/
structure Refused (f : RangeFetcher σ) (node : Behavior) (base : Trail) (segs : List Segment)
    (done : List Report) (seg : Segment) (left : List Segment)
    (arrived : List (HeightRange × BlocksReply)) (s : Transfer) : Prop where
  past : Past f node segs done (seg :: left)
  gathered : seg.Gathered node [] arrived
  errors : RangeFetcher.errorsOf (arrived.map Prod.snd) ≠ []
  trail : s.trail = base ++ Report.trails done ++ { asked := seg.questions, heard := arrived }
  outcome : s.stage = .ended (.error (.incomplete .blocks
    (RangeFetcher.errorsOf (arrived.map Prod.snd))))

/-- **A delivery that missed something ends because of the segment that it missed it in.** -/
theorem Standing.refused_of_missed {base : Trail} {segs : List Segment}
    {outcome : Except WorkerError Unit} (hs : Standing f node base segs s)
    (hended : s.stage = .ended outcome) (hbase : ¬∃ x ∈ base.heard, ∃ e, x.2 = .error e)
    (hmissed : s.Missed) : ∃ done seg left arrived, Refused f node base segs done seg left arrived s := by
  obtain ⟨x, hx, e, he⟩ := hmissed
  -- neither before nor in a finished segment is anything missed
  have hpast {done : List Report} (hdone : ∀ r ∈ done, r.Complete f node)
      (hmem : x ∈ (base ++ Report.trails done).heard) : False := by
    rw [Trail.heard_append, Report.heard_trails] at hmem
    rcases List.mem_append.1 hmem with hmem | hmem
    · exact hbase ⟨x, hmem, e, he⟩
    · exact not_missed_of_complete hdone ⟨x, hmem, e, he⟩
  cases hs with
  | idle | gathering | streaming => cases hended
  | finished done hpast' ht =>
    rw [ht] at hx
    exact (hpast hpast'.complete hx).elim
  | refused e' done seg hpast' arrived hgathered hmerge ht =>
    obtain ⟨herrors, rfl⟩ := RangeFetcher.merge_eq_error.1 hmerge
    exact ⟨done, seg, _, arrived, hpast', hgathered, herrors, ht, rfl⟩
  | closed done seg hpast' arrived hgathered set hmerge hclosed ht =>
    rw [ht, Trail.heard_append] at hx
    rcases List.mem_append.1 hx with hx | hx
    · exact (hpast hpast'.complete hx).elim
    · exact absurd ⟨x, hx, e, he⟩ (not_missed_of_merge hmerge)
  | failed done r hpast' hgathered hmerge hsettled hfailures ht =>
    rw [ht, Report.trails_concat, ← Trail.append_assoc, Trail.heard_append] at hx
    rcases List.mem_append.1 hx with hx | hx
    · exact (hpast hpast'.complete hx).elim
    · exact absurd ⟨x, hx, e, he⟩ (not_missed_of_merge hmerge)

/-- **A delivery of pages that missed something stopped at a page.** -/
theorem stopped_of_missed {pages : List HeightRange} {outcome : Except WorkerError Unit}
    (hs : Steps f node (start f (pages.map .ofPage)) s) (hended : s.stage = .ended outcome)
    (hmissed : s.Missed) :
    ∃ before page after done arrived, pages = before ++ page :: after ∧
      StoppedAt f node before page done arrived s := by
  have hstanding := (standing_start f node (pages.map .ofPage)).steps hs
  obtain ⟨done, seg, left, arrived, hrefused⟩ :=
    hstanding.refused_of_missed hended (fun ⟨_, hx, _⟩ => absurd hx List.not_mem_nil) hmissed
  -- the segments are pages: those that were delivered, the one that was refused, and the others
  obtain ⟨before, rest, hpages, hbefore, hrest⟩ := List.map_eq_append_iff.1 hrefused.past.segments
  obtain ⟨page, after, hrest', hpage, -⟩ := List.map_eq_cons_iff.1 hrest
  subst hrest'
  subst hpage
  have htrail := hrefused.trail
  rw [Trail.nil_append] at htrail
  refine ⟨before, page, after, done, arrived, hpages, hbefore.symm, hrefused.past.complete, ?_,
    hrefused.gathered.replies, ?_, ?_, ?_, ?_, hrefused.errors, hrefused.outcome⟩
  · have hparts := hrefused.gathered.parts
    rwa [List.append_nil] at hparts
  · rw [htrail, Trail.asked_append, Report.asked_trails]
    rfl
  · rw [htrail, Trail.heard_append, Report.heard_trails]
  · rw [htrail, Trail.found_append, Report.found_trails, List.append_nil]
  · rw [htrail, Trail.sent_append, Report.sent_trails, List.append_nil]

/-- How a delivery of the newest blocks stops: nothing was sent or searched for, and either the newest
blocks could not be had, or some parts of the gap before them. -/
inductive LatestStopped (f : RangeFetcher σ) (node : Behavior) (q : LatestQuery) (s : Transfer) :
    Prop where
  | unreachable (e : NodeError) (hsent : s.trail.sent = []) (hfound : s.trail.found = [])
      (hasked : s.trail.asked = [.blocks {} RangeFetcher.partSize])
      (hheard : s.trail.heard = [({}, .error e)])
      (houtcome : s.stage = .ended (.error (.node e))) : LatestStopped f node q s
  | gap (newest : List Block) (arrived : List (HeightRange × BlocksReply)) (seg : Segment)
      (hseg : seg = .sinceLast f.config.window q (({} : BlockSet).extend newest))
      (hsent : s.trail.sent = []) (hfound : s.trail.found = [])
      (hasked : s.trail.asked = .blocks {} RangeFetcher.partSize :: seg.questions)
      (hheard : s.trail.heard = ({}, .ok newest) :: arrived)
      (hanswered : (arrived.map Prod.fst).Perm seg.parts)
      (herrors : RangeFetcher.errorsOf (arrived.map Prod.snd) ≠ [])
      (houtcome : s.stage = .ended (.error (.incomplete .blocks
        (RangeFetcher.errorsOf (arrived.map Prod.snd))))) : LatestStopped f node q s

theorem StandingLatest.stopped_of_missed {q : LatestQuery} {outcome : Except WorkerError Unit}
    (hs : StandingLatest f node q s) (hended : s.stage = .ended outcome) (hmissed : s.Missed) :
    LatestStopped f node q s := by
  have hok {bs : List Block} : ¬∃ x ∈ [(({} : HeightRange), (.ok bs : BlocksReply))],
      ∃ e, x.2 = .error e := by
    rintro ⟨x, hx, e, he⟩
    rw [List.mem_singleton.1 hx] at he
    cases he
  cases hs with
  | waiting => cases hended
  | unreachable e hreply => exact .unreachable e rfl rfl rfl rfl rfl
  | empty bs hreply hempty => exact absurd hmissed hok
  | known bs hreply hempty h =>
    obtain ⟨done, seg, left, arrived, hrefused⟩ := h.refused_of_missed hended hok hmissed
    -- the segment before which nothing was delivered is the only one
    obtain ⟨rfl, rfl, rfl⟩ := hrefused.past.of_single
    have hparts := hrefused.gathered.parts
    rw [List.append_nil] at hparts
    have htrail := hrefused.trail
    refine .gap bs arrived _ rfl ?_ ?_ ?_ ?_ hparts hrefused.errors hrefused.outcome
    · rw [htrail]
      rfl
    · rw [htrail]
      rfl
    · rw [htrail]
      rfl
    · rw [htrail]
      rfl

end Transfer

namespace RangeFetcher

variable [Clocked σ] (f : RangeFetcher σ) {deadline : Deadline}

/-- **The fetcher does not look beyond a page that fails.** -/
theorem fetchPages_stop (page : HeightRange) (after before : List HeightRange) {e : WorkerError} :
    ∀ {world : σ}, (f.fetchPages deadline (before ++ [page]) world).1.outcome = .error e →
      f.fetchPages deadline (before ++ page :: after) world =
        f.fetchPages deadline (before ++ [page]) world := by
  induction before with
  | nil =>
    intro world h
    rw [List.nil_append, fetchPages_cons] at h ⊢
    rw [List.nil_append, fetchPages_cons]
    rcases houtcome : (f.fetchSegment (.ofPage page) deadline world).1.outcome with e' | u
    · rfl
    · simp only [houtcome] at h
      cases h
  | cons first before ih =>
    intro world h
    rw [List.cons_append, fetchPages_cons] at h ⊢
    rw [List.cons_append, fetchPages_cons]
    rcases houtcome : (f.fetchSegment (.ofPage first) deadline world).1.outcome with e' | u
    · rfl
    · simp only [houtcome] at h
      simp only [ih h]

/-- **The barrier.** Whatever a node replies, in whatever order its replies and the moves of the
pipeline come: a delivery of a range that misses some part ends at the page of that part (`StoppedAt`),
a delivery of the newest blocks that misses something ends with nothing sent (`LatestStopped`), and the
message names each failing part once. All deliveries end if all questions are answered, and what a
fetcher does with its source is one of them, in which no page behind the failing one has a part. -/
theorem metadata_barrier (node : Behavior) (range : HeightRange) (q : LatestQuery) :
    (∀ s outcome, Transfer.Steps f node (Transfer.start f (f.segments range)) s →
      s.stage = .ended outcome → s.Missed →
      ∃ before page after done arrived, range.split f.config.bigPage = before ++ page :: after ∧
        Transfer.StoppedAt f node before page done arrived s) ∧
    (∀ s outcome, Transfer.Steps f node (Transfer.startLatest f q) s →
      s.stage = .ended outcome → s.Missed → Transfer.LatestStopped f node q s) ∧
    (∀ messages, (WorkerError.incomplete .blocks messages).message =
      "Errors Getting Blocks: - " ++ String.join (messages.map (· ++ " , "))) ∧
    (node.Total →
      Ends (Transfer.Step f node) Transfer.Over (Transfer.start f (f.segments range)) ∧
        Ends (Transfer.Step f node) Transfer.Over (Transfer.startLatest f q)) ∧
    (∀ (deadline : Deadline) (world : σ),
      (∃ s, Transfer.Steps f (.ofSource f.source deadline) (Transfer.start f (f.segments range)) s ∧
        s.Over ∧ s.stage = .ended (f.fetch range deadline world).1.outcome ∧
        s.trail.sent = (f.fetch range deadline world).1.payloads) ∧
      (∃ s, Transfer.Steps f (.ofSource f.source deadline) (Transfer.startLatest f q) s ∧
        s.Over ∧ s.stage = .ended (f.fetchLatest q deadline world).1.outcome ∧
        s.trail.sent = (f.fetchLatest q deadline world).1.payloads)) ∧
    (∀ (deadline : Deadline) (world : σ) before page after e,
      range.split f.config.bigPage = before ++ page :: after →
      (f.fetchPages deadline (before ++ [page]) world).1.outcome = .error e →
      f.fetch range deadline world = f.fetchPages deadline (before ++ [page]) world) := by
  refine ⟨?_, ?_, ?_, ?_, ?_, ?_⟩
  · intro s outcome hs hended hmissed
    exact Transfer.stopped_of_missed hs hended hmissed
  · intro s outcome hs hended hmissed
    exact (Transfer.standing_latest hs).stopped_of_missed hended hmissed
  · exact WorkerError.message_incomplete .blocks
  · intro htotal
    exact ⟨(Transfer.ends_of_kept htotal (Transfer.kept_start f _)).imp fun _ h => h.1,
      (Transfer.ends_of_kept htotal (Transfer.kept_startLatest f q)).imp fun _ h => h.1⟩
  · intro deadline world
    have hf := follows_ofSource f.source deadline
    exact ⟨f.fetch_steps hf world trivial range, f.fetchLatest_steps hf world trivial q⟩
  · intro deadline world before page after e hpages hfailed
    rw [fetch, hpages]
    exact f.fetchPages_stop page after before hfailed

end RangeFetcher

end ChainIndex
