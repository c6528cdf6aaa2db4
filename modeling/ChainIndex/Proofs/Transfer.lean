import ChainIndex.Delivery.Range
import ChainIndex.Proofs.PipelineFlow
import Mathlib.Logic.Relation

/-!
# Delivering a range, in any order of events

A range is delivered segment after segment. The parts of a segment are asked for at the same time, and
their replies come in any order. If all of them are there, the blocks go through a pipeline, whose
moves come in any order. Meanwhile the receiver takes payloads whenever it likes.

* `Transfer.Step`: all that can happen next.
* `Transfer.Standing`: where a delivery stands. Its past is one `Report` per delivered segment, and its
  trail (what was asked, heard, found and sent) is that of these reports and of the current segment.
* `Standing.step`: **every step leads from one standing to another.**
-/

namespace ChainIndex

/-- What is asked of a node while blocks are delivered. -/
inductive Question where
  | blocks (range : HeightRange) (limit : UInt64)
  | search (page : SearchPage)
deriving DecidableEq, Repr

/-- A reply to a question for blocks. -/
abbrev BlocksReply := Except NodeError (List Block)

/-- What a node may reply to a question. -/
structure Behavior where
  blocks : HeightRange → UInt64 → BlocksReply → Prop
  search : SearchPage → SearchReply → Prop

/-- A node that replies to everything, be it with an error. -/
structure Behavior.Total (node : Behavior) : Prop where
  blocks : ∀ range limit, ∃ reply, node.blocks range limit reply
  search : ∀ page, ∃ reply, node.search page reply

/-- What is delivered at a time: blocks that are known already and those of some parts, from a first
height on. -/
structure Segment where
  parts : List HeightRange
  known : BlockSet := {}
  first : Height := 0

namespace Segment

/-- A page of a range. -/
def ofPage (page : HeightRange) : Segment :=
  { parts := page.split RangeFetcher.partSize }

/-- Everything since the last height that is known, once the newest blocks are there. -/
def sinceLast (window : Height) (q : LatestQuery) (newest : BlockSet) : Segment :=
  let first := max (startingHeight q.lastHeight window newest.highest) 1
  { parts :=
      if first < newest.lowest then
        ({ first, last := newest.lowest - 1 } : HeightRange).split RangeFetcher.partSize
      else []
    known := newest
    first }

variable (seg : Segment)

/-- What is asked for the blocks of a segment. -/
def questions : List Question :=
  seg.parts.map fun part => .blocks part 0

/-- The blocks of a set that are passed on. -/
def selected (set : BlockSet) : List Block :=
  set.blocks.filter fun b => seg.first ≤ b.height

/-- The replies for the blocks of a segment, as they came in, and the parts that are still awaited. -/
structure Gathered (node : Behavior) (pending : List HeightRange)
    (arrived : List (HeightRange × BlocksReply)) : Prop where
  parts : (arrived.map Prod.fst ++ pending).Perm seg.parts
  replies : ∀ x ∈ arrived, node.blocks x.1 0 x.2

/-- All parts of a segment are awaited at first. -/
theorem gathered_nil (node : Behavior) : seg.Gathered node seg.parts [] where
  parts := List.Perm.refl _
  replies _ hx := absurd hx List.not_mem_nil

/-- A reply that arrives is not awaited any more. -/
theorem Gathered.reply {seg : Segment} {node : Behavior} {pending : List HeightRange}
    {arrived : List (HeightRange × BlocksReply)} (h : seg.Gathered node pending arrived) {i : Nat}
    {part : HeightRange} {r : BlocksReply} (hpart : pending[i]? = some part)
    (hreply : node.blocks part 0 r) :
    seg.Gathered node (pending.eraseIdx i) (arrived ++ [(part, r)]) where
  parts := by
    obtain ⟨hi, rfl⟩ := List.getElem?_eq_some_iff.1 hpart
    refine List.Perm.trans ?_ h.parts
    rw [List.map_append, List.append_assoc]
    exact (List.getElem_cons_eraseIdx_perm hi).append_left _
  replies := by
    intro x hx
    rcases List.mem_append.1 hx with hx | hx
    · exact h.replies x hx
    · rw [List.mem_singleton.1 hx]
      exact hreply

end Segment

/-- What was asked, heard, found and sent, each in its order. -/
structure Trail where
  asked : List Question := []
  /-- Replies to questions for blocks. -/
  heard : List (HeightRange × BlocksReply) := []
  /-- Replies to searches. -/
  found : List (SearchPage × SearchReply) := []
  sent : List Payload := []

namespace Trail

instance : Append Trail where
  append t u :=
    { asked := t.asked ++ u.asked
      heard := t.heard ++ u.heard
      found := t.found ++ u.found
      sent := t.sent ++ u.sent }

@[ext]
theorem ext' {t u : Trail} (hasked : t.asked = u.asked) (hheard : t.heard = u.heard)
    (hfound : t.found = u.found) (hsent : t.sent = u.sent) : t = u := by
  cases t
  cases u
  cases hasked
  cases hheard
  cases hfound
  cases hsent
  rfl

variable (t u v : Trail)

@[simp] theorem asked_append : (t ++ u).asked = t.asked ++ u.asked := rfl
@[simp] theorem heard_append : (t ++ u).heard = t.heard ++ u.heard := rfl
@[simp] theorem found_append : (t ++ u).found = t.found ++ u.found := rfl
@[simp] theorem sent_append : (t ++ u).sent = t.sent ++ u.sent := rfl

@[simp]
theorem append_nil : t ++ ({} : Trail) = t := by
  apply ext' <;> exact List.append_nil _

@[simp]
theorem nil_append : ({} : Trail) ++ t = t := rfl

theorem append_assoc : t ++ u ++ v = t ++ (u ++ v) := by
  apply ext' <;> exact List.append_assoc _ _ _

end Trail

/-- What a delivery is busy with. -/
inductive Stage where
  | idle
  /-- The newest blocks were asked for. -/
  | newest (q : LatestQuery)
  /-- The parts of a segment were asked for; some replies are there, others are awaited. -/
  | gathering (seg : Segment) (pending : List HeightRange)
      (arrived : List (HeightRange × BlocksReply))
  /-- The blocks of a segment are on their way. -/
  | streaming (seg : Segment) (set : BlockSet)
  | ended (outcome : Except WorkerError Unit)

structure Transfer where
  stage : Stage := .idle
  left : List Segment := []
  pipeline : Pipeline
  trail : Trail := {}

namespace Pipeline

/-- What a move adds to the trail. -/
def trace (p : Pipeline) (m : Move) : Trail :=
  { asked := (p.begun m).map .search, found := p.ended m, sent := p.emitted m }

/-- A new pipeline for some blocks. What the receiver has not taken yet stays there for it. -/
def restart (p : Pipeline) (fetchers : Nat) (bs : List Block) : Pipeline :=
  { start fetchers bs with out := p.out, delivered := p.delivered, journal := p.journal }

end Pipeline

namespace Transfer

variable {σ : Type} (f : RangeFetcher σ) (node : Behavior)

/-- All that can happen next. -/
inductive Step : Transfer → Transfer → Prop where
  /-- The newest blocks cannot be had. -/
  | unreachable {q left p t} (e : NodeError)
      (hreply : node.blocks {} RangeFetcher.partSize (.error e)) :
      Step ⟨.newest q, left, p, t⟩
        ⟨.ended (.error (.node e)), left, p, t ++ { heard := [({}, .error e)] }⟩
  /-- There are no blocks at all. -/
  | empty {q left p t} (bs : List Block)
      (hreply : node.blocks {} RangeFetcher.partSize (.ok bs))
      (hempty : (({} : BlockSet).extend bs).isEmpty = true) :
      Step ⟨.newest q, left, p, t⟩
        ⟨.ended (.ok ()), left, p, t ++ { heard := [({}, .ok bs)] }⟩
  | arrive {q left p t} (bs : List Block)
      (hreply : node.blocks {} RangeFetcher.partSize (.ok bs))
      (hempty : (({} : BlockSet).extend bs).isEmpty = false) :
      Step ⟨.newest q, left, p, t⟩
        ⟨.idle, Segment.sinceLast f.config.window q (({} : BlockSet).extend bs) :: left, p,
          t ++ { heard := [({}, .ok bs)] }⟩
  | begin {seg left p t} :
      Step ⟨.idle, seg :: left, p, t⟩
        ⟨.gathering seg seg.parts [], left, p, t ++ { asked := seg.questions }⟩
  | finish {p t} : Step ⟨.idle, [], p, t⟩ ⟨.ended (.ok ()), [], p, t⟩
  /-- Any of the replies that are awaited arrives. -/
  | reply {seg pending arrived left p t} (i : Nat) (part : HeightRange) (r : BlocksReply)
      (hpart : pending[i]? = some part) (hreply : node.blocks part 0 r) :
      Step ⟨.gathering seg pending arrived, left, p, t⟩
        ⟨.gathering seg (pending.eraseIdx i) (arrived ++ [(part, r)]), left, p,
          t ++ { heard := [(part, r)] }⟩
  | refuse {seg arrived left p t} (e : WorkerError)
      (hmerge : RangeFetcher.merge seg.known (arrived.map Prod.snd) = .error e) :
      Step ⟨.gathering seg [] arrived, left, p, t⟩ ⟨.ended (.error e), left, p, t⟩
  /-- Nobody takes the blocks. -/
  | close {seg arrived left p t} (set : BlockSet)
      (hmerge : RangeFetcher.merge seg.known (arrived.map Prod.snd) = .ok set)
      (hclosed : f.isOpen = false) (hne : seg.selected set ≠ []) :
      Step ⟨.gathering seg [] arrived, left, p, t⟩
        ⟨.ended (.error (.sink .outputClosed)), left, p, t⟩
  | stream {seg arrived left p t} (set : BlockSet)
      (hmerge : RangeFetcher.merge seg.known (arrived.map Prod.snd) = .ok set)
      (hopen : f.isOpen = true ∨ seg.selected set = []) :
      Step ⟨.gathering seg [] arrived, left, p, t⟩
        ⟨.streaming seg set, left, p.restart f.config.fetchers (seg.selected set), t⟩
  | move {seg set left p t} (m : Pipeline.Move) (q : Pipeline) (hm : p.Permits node.search m)
      (hq : p.step? (f.decodeWith set) m = some q) :
      Step ⟨.streaming seg set, left, p, t⟩ ⟨.streaming seg set, left, q, t ++ p.trace m⟩
  /-- The receiver takes a payload, whatever else goes on. -/
  | forward {stage left p t} (x : Payload) (rest : List Payload) (hout : p.out = x :: rest) :
      Step ⟨stage, left, p, t⟩
        ⟨stage, left, { p with out := rest, delivered := p.delivered ++ [x] }, t⟩
  | settle {seg set left p t} (hdrained : p.isDrained = true) (hfailures : p.failures = []) :
      Step ⟨.streaming seg set, left, p, t⟩ ⟨.idle, left, p, t⟩
  | fail {seg set left p t} (hdrained : p.isDrained = true) (hfailures : p.failures ≠ []) :
      Step ⟨.streaming seg set, left, p, t⟩
        ⟨.ended (.error (.incomplete .transactions (p.failures.map RangeFetcher.failureText))),
          left, p, t⟩

/-- Any number of steps. -/
abbrev Steps : Transfer → Transfer → Prop :=
  Relation.ReflTransGen (Step f node)

/-- What had happened when the newest blocks were asked for. -/
def askedLatest : Trail :=
  { asked := [.blocks {} RangeFetcher.partSize] }

/-- The delivery of segments, before it begins. -/
def start (segs : List Segment) : Transfer :=
  { left := segs, pipeline := .start f.config.fetchers [] }

/-- The delivery of the newest blocks; they were just asked for. -/
def startLatest (q : LatestQuery) : Transfer :=
  { stage := .newest q, pipeline := .start f.config.fetchers [], trail := askedLatest }

end Transfer

/-! ## Where a delivery stands -/

/-- What became of a segment. -/
structure Report where
  segment : Segment
  set : BlockSet
  heard : List (HeightRange × BlocksReply)
  found : List (SearchPage × SearchReply)
  sent : List Payload

namespace Report

variable {σ : Type} (f : RangeFetcher σ) (node : Behavior) (r : Report)

/-- The blocks of a report. -/
def blocks : List Block :=
  r.segment.selected r.set

def trail : Trail :=
  { asked := r.segment.questions ++ (Pipeline.pagesOf r.blocks).map .search
    heard := r.heard
    found := r.found
    sent := r.sent }

/-- All blocks and all their transactions were had, and sent once. -/
structure Complete : Prop where
  gathered : r.segment.Gathered node [] r.heard
  merged : RangeFetcher.merge r.segment.known (r.heard.map Prod.snd) = .ok r.set
  settled : Pipeline.Settled (f.decodeWith r.set) node.search r.blocks (Pipeline.pagesOf r.blocks)
    r.found r.sent
  faultless : Pipeline.failuresOf r.found = []

/-- The trail of several reports. -/
def trails (rs : List Report) : Trail :=
  rs.foldr (fun r t => r.trail ++ t) {}

theorem asked_trails (rs : List Report) :
    (trails rs).asked = rs.flatMap fun r => r.trail.asked := by
  induction rs with
  | nil => rfl
  | cons r rs ih => exact congrArg (r.trail.asked ++ ·) ih

theorem heard_trails (rs : List Report) : (trails rs).heard = rs.flatMap Report.heard := by
  induction rs with
  | nil => rfl
  | cons r rs ih => exact congrArg (r.heard ++ ·) ih

theorem found_trails (rs : List Report) : (trails rs).found = rs.flatMap Report.found := by
  induction rs with
  | nil => rfl
  | cons r rs ih => exact congrArg (r.found ++ ·) ih

theorem sent_trails (rs : List Report) : (trails rs).sent = rs.flatMap Report.sent := by
  induction rs with
  | nil => rfl
  | cons r rs ih => exact congrArg (r.sent ++ ·) ih

theorem trails_concat (rs : List Report) (r : Report) : trails (rs ++ [r]) = trails rs ++ r.trail := by
  induction rs with
  | nil => exact Trail.append_nil _
  | cons q rs ih =>
    show q.trail ++ trails (rs ++ [r]) = q.trail ++ trails rs ++ r.trail
    rw [ih, Trail.append_assoc]

end Report

namespace Transfer

variable {σ : Type} (f : RangeFetcher σ) (node : Behavior)

/-- Of these segments, some were delivered and others are left. -/
structure Past (segs : List Segment) (done : List Report) (left : List Segment) : Prop where
  complete : ∀ r ∈ done, r.Complete f node
  segments : segs = done.map Report.segment ++ left

/-- Where the delivery of some segments stands, after what had happened before. -/
inductive Standing (base : Trail) (segs : List Segment) : Transfer → Prop where
  | idle {left p t} (done : List Report) (hpast : Past f node segs done left)
      (ht : t = base ++ Report.trails done) : Standing base segs ⟨.idle, left, p, t⟩
  | gathering {seg pending arrived left p t} (done : List Report)
      (hpast : Past f node segs done (seg :: left)) (hgathered : seg.Gathered node pending arrived)
      (ht : t = base ++ Report.trails done ++ { asked := seg.questions, heard := arrived }) :
      Standing base segs ⟨.gathering seg pending arrived, left, p, t⟩
  | streaming {seg set left p t} (done : List Report)
      (hpast : Past f node segs done (seg :: left)) (arrived : List (HeightRange × BlocksReply))
      (hgathered : seg.Gathered node [] arrived)
      (hmerge : RangeFetcher.merge seg.known (arrived.map Prod.snd) = .ok set)
      (searched : List SearchPage) (found : List (SearchPage × SearchReply)) (sent : List Payload)
      (hflow : Pipeline.Flow (f.decodeWith set) node.search (seg.selected set) searched found sent p)
      (ht : t = base ++ Report.trails done ++
        { asked := seg.questions ++ searched.map .search, heard := arrived, found, sent }) :
      Standing base segs ⟨.streaming seg set, left, p, t⟩
  | finished {p t} (done : List Report) (hpast : Past f node segs done [])
      (ht : t = base ++ Report.trails done) : Standing base segs ⟨.ended (.ok ()), [], p, t⟩
  | refused {left p t} (e : WorkerError) (done : List Report) (seg : Segment)
      (hpast : Past f node segs done (seg :: left)) (arrived : List (HeightRange × BlocksReply))
      (hgathered : seg.Gathered node [] arrived)
      (hmerge : RangeFetcher.merge seg.known (arrived.map Prod.snd) = .error e)
      (ht : t = base ++ Report.trails done ++ { asked := seg.questions, heard := arrived }) :
      Standing base segs ⟨.ended (.error e), left, p, t⟩
  | closed {left p t} (done : List Report) (seg : Segment)
      (hpast : Past f node segs done (seg :: left)) (arrived : List (HeightRange × BlocksReply))
      (hgathered : seg.Gathered node [] arrived) (set : BlockSet)
      (hmerge : RangeFetcher.merge seg.known (arrived.map Prod.snd) = .ok set)
      (hclosed : f.isOpen = false)
      (ht : t = base ++ Report.trails done ++ { asked := seg.questions, heard := arrived }) :
      Standing base segs ⟨.ended (.error (.sink .outputClosed)), left, p, t⟩
  | failed {left p t} (done : List Report) (r : Report)
      (hpast : Past f node segs done (r.segment :: left))
      (hgathered : r.segment.Gathered node [] r.heard)
      (hmerge : RangeFetcher.merge r.segment.known (r.heard.map Prod.snd) = .ok r.set)
      (hsettled : Pipeline.Settled (f.decodeWith r.set) node.search r.blocks
        (Pipeline.pagesOf r.blocks) r.found r.sent)
      (hfailures : Pipeline.failuresOf r.found ≠ [])
      (ht : t = base ++ Report.trails (done ++ [r])) :
      Standing base segs
        ⟨.ended (.error (.incomplete .transactions
          ((Pipeline.failuresOf r.found).map RangeFetcher.failureText))), left, p, t⟩

variable {f node}

theorem Past.concat {segs left : List Segment} {done : List Report} {r : Report}
    (h : Past f node segs done (r.segment :: left)) (hr : r.Complete f node) :
    Past f node segs (done ++ [r]) left where
  complete := by
    intro x hx
    rcases List.mem_append.1 hx with hx | hx
    · exact h.complete x hx
    · rw [List.mem_singleton.1 hx]
      exact hr
  segments := by
    rw [h.segments, List.map_append, List.append_assoc]
    rfl

/-- Of a single segment that is not finished, nothing is finished. -/
theorem Past.of_single {seg first : Segment} {done : List Report} {left : List Segment}
    (h : Past f node [first] done (seg :: left)) : done = [] ∧ seg = first ∧ left = [] := by
  have hsegs := h.segments
  rcases done with _ | ⟨r, done⟩
  · cases hsegs
    exact ⟨rfl, rfl, rfl⟩
  · have hlength := congrArg List.length hsegs
    simp at hlength

/-- Of a single segment, all that is finished is one report. -/
theorem Past.report_of_single {first : Segment} {done : List Report}
    (h : Past f node [first] done []) :
    ∃ r : Report, done = [r] ∧ r.segment = first ∧ r.Complete f node := by
  have hsegs := h.segments
  rw [List.append_nil] at hsegs
  obtain ⟨r, rfl, hseg⟩ := List.map_eq_singleton_iff.1 hsegs.symm
  exact ⟨r, rfl, hseg, h.complete r List.mem_cons_self⟩

/-- A pipeline that starts with some blocks has asked and found nothing. -/
theorem flow_restart {decoder : RawTransaction → Except DecodeError (Measured Transaction)}
    {answers : SearchPage → SearchReply → Prop} (p : Pipeline) (n : Nat) (bs : List Block) :
    Pipeline.Flow decoder answers bs [] [] [] (p.restart n bs) := by
  have hfree : (p.restart n bs).fetchers.all Fetch.isFree = true := by
    simp [Pipeline.restart, Pipeline.start, Fetch.isFree]
  exact .start rfl rfl hfree rfl rfl rfl

/-- **Every step leads from one standing to another.** -/
theorem Standing.step {base : Trail} {segs : List Segment} {s t : Transfer}
    (hs : Standing f node base segs s) (h : Step f node s t) : Standing f node base segs t := by
  cases h with
  -- the newest blocks are only asked for before there are segments
  | unreachable e hreply => cases hs
  | empty bs hreply hempty => cases hs
  | arrive bs hreply hempty => cases hs
  | begin =>
    cases hs with
    | idle done hpast ht =>
      rw [ht]
      exact .gathering done hpast (Segment.gathered_nil _ node) rfl
  | finish =>
    cases hs with
    | idle done hpast ht => exact .finished done hpast ht
  | reply i part r hpart hreply =>
    cases hs with
    | gathering done hpast hgathered ht =>
      refine .gathering done hpast (hgathered.reply hpart hreply) ?_
      rw [ht]
      apply Trail.ext' <;> simp
  | refuse e hmerge =>
    cases hs with
    | gathering done hpast hgathered ht => exact .refused e done _ hpast _ hgathered hmerge ht
  | close set hmerge hclosed hne =>
    cases hs with
    | gathering done hpast hgathered ht =>
      exact .closed done _ hpast _ hgathered set hmerge hclosed ht
  | stream set hmerge hopen =>
    cases hs with
    | gathering done hpast hgathered ht =>
      exact .streaming done hpast _ hgathered hmerge [] [] [] (flow_restart _ _ _)
        (by rw [List.map_nil, List.append_nil]; exact ht)
  | move m q hm hq =>
    cases hs with
    | streaming done hpast arrived hgathered hmerge searched found sent hflow ht =>
      refine .streaming done hpast arrived hgathered hmerge _ _ _
        (hflow.step (Pipeline.moved_of_step hq) hm) ?_
      rw [ht]
      apply Trail.ext' <;> simp [Pipeline.trace]
  | forward x rest hout =>
    cases hs with
    | idle done hpast ht => exact .idle done hpast ht
    | gathering done hpast hgathered ht => exact .gathering done hpast hgathered ht
    | streaming done hpast arrived hgathered hmerge searched found sent hflow ht =>
      -- the receiver is one of those who move the pipeline
      have hflow' := hflow.step (.forward x rest hout) (Pipeline.permits_of_ended rfl)
      simp only [Pipeline.begun, Pipeline.ended, Pipeline.emitted, List.append_nil] at hflow'
      exact .streaming done hpast arrived hgathered hmerge _ _ _ hflow' ht
    | finished done hpast ht => exact .finished done hpast ht
    | refused e done seg hpast arrived hgathered hmerge ht =>
      exact .refused e done seg hpast arrived hgathered hmerge ht
    | closed done seg hpast arrived hgathered set hmerge hclosed ht =>
      exact .closed done seg hpast arrived hgathered set hmerge hclosed ht
    | failed done r hpast hgathered hmerge hsettled hfailures ht =>
      exact .failed done r hpast hgathered hmerge hsettled hfailures ht
  | settle hdrained hfailures =>
    cases hs with
    | streaming done hpast arrived hgathered hmerge searched found sent hflow ht =>
      -- what the pipeline was asked for, found and sent becomes a report
      have hsettled := hflow.settled hdrained
      obtain rfl := hsettled.asked_eq
      have hcomplete : Report.Complete f node ⟨_, _, arrived, found, sent⟩ :=
        ⟨hgathered, hmerge, hsettled, hflow.failures.symm.trans hfailures⟩
      refine .idle _ (hpast.concat hcomplete) ?_
      rw [ht, Report.trails_concat, Trail.append_assoc]
      rfl
  | fail hdrained hfailures =>
    cases hs with
    | streaming done hpast arrived hgathered hmerge searched found sent hflow ht =>
      have hsettled := hflow.settled hdrained
      obtain rfl := hsettled.asked_eq
      rw [hflow.failures] at hfailures ⊢
      refine .failed done ⟨_, _, arrived, found, sent⟩ hpast hgathered hmerge hsettled hfailures ?_
      rw [ht, Report.trails_concat, Trail.append_assoc]
      rfl

/-- Where the delivery of the newest blocks stands. -/
inductive StandingLatest (f : RangeFetcher σ) (node : Behavior) (q : LatestQuery) :
    Transfer → Prop where
  | waiting {p} : StandingLatest f node q ⟨.newest q, [], p, askedLatest⟩
  | unreachable {p} (e : NodeError) (hreply : node.blocks {} RangeFetcher.partSize (.error e)) :
      StandingLatest f node q
        ⟨.ended (.error (.node e)), [], p, askedLatest ++ { heard := [({}, .error e)] }⟩
  | empty {p} (bs : List Block) (hreply : node.blocks {} RangeFetcher.partSize (.ok bs))
      (hempty : (({} : BlockSet).extend bs).isEmpty = true) :
      StandingLatest f node q ⟨.ended (.ok ()), [], p, askedLatest ++ { heard := [({}, .ok bs)] }⟩
  | known {s} (bs : List Block) (hreply : node.blocks {} RangeFetcher.partSize (.ok bs))
      (hempty : (({} : BlockSet).extend bs).isEmpty = false)
      (h : Standing f node (askedLatest ++ { heard := [({}, .ok bs)] })
        [.sinceLast f.config.window q (({} : BlockSet).extend bs)] s) : StandingLatest f node q s

theorem StandingLatest.step {q : LatestQuery} {s t : Transfer} (hs : StandingLatest f node q s)
    (h : Step f node s t) : StandingLatest f node q t := by
  cases hs with
  | waiting =>
    cases h with
    | unreachable e hreply => exact .unreachable e hreply
    | empty bs hreply hempty => exact .empty bs hreply hempty
    | arrive bs hreply hempty =>
      exact .known bs hreply hempty (.idle [] ⟨fun _ hr => absurd hr List.not_mem_nil, rfl⟩ rfl)
    | forward x rest hout => exact .waiting
  | unreachable e hreply =>
    cases h with
    | forward x rest hout => exact .unreachable e hreply
  | empty bs hreply hempty =>
    cases h with
    | forward x rest hout => exact .empty bs hreply hempty
  | known bs hreply hempty hstanding => exact .known bs hreply hempty (hstanding.step h)

end Transfer

end ChainIndex
