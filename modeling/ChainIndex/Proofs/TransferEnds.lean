import ChainIndex.Proofs.PipelineProgress
import ChainIndex.Proofs.Transfer

/-!
# Every delivery ends

A delivery makes some progress with every step: a stage is left, a reply is awaited no more, or the
pipeline has less to do (`step_effort`). If the node replies to everything, a delivery that has not
ended can go on (`exists_step`). So **every run of a delivery ends, with everything handed over**
(`ends_of_kept`), in whatever order things happen.
-/

namespace ChainIndex

/-- All runs from a state come to an end, and in such a way. -/
structure Ends {α : Type} (R : α → α → Prop) (Q : α → Prop) (a : α) : Prop where
  finite : Acc (fun b c => R c b) a
  final : ∀ b, Relation.ReflTransGen R a b → (∀ c, ¬R b c) → Q b

namespace Ends

variable {α : Type} {R : α → α → Prop} {P Q : α → Prop} {a : α}

theorem imp (h : Ends R P a) (hpq : ∀ b, P b → Q b) : Ends R Q a :=
  ⟨h.finite, fun b hb hstuck => hpq b (h.final b hb hstuck)⟩

end Ends

namespace Transfer

variable {σ : Type} {f : RangeFetcher σ} {node : Behavior} {s t : Transfer}

/-! ## Every step is progress -/

namespace Effort

/-- Stages that can follow one another within a segment. -/
def rank : Stage → Nat
  | .ended _ => 0
  | .idle => 1
  | .streaming _ _ => 2
  | .gathering _ _ _ => 3
  | .newest _ => 5

/-- Replies that are awaited. -/
def awaited : Stage → Nat
  | .gathering _ pending _ => pending.length
  | _ => 0

end Effort

/-- What is left to do. -/
def effort (s : Transfer) : Nat × Nat × Nat × Nat :=
  (3 * s.left.length + Effort.rank s.stage, Effort.awaited s.stage, s.pipeline.work)

abbrev Less : Nat × Nat × Nat × Nat → Nat × Nat × Nat × Nat → Prop :=
  Prod.Lex (· < ·) (Prod.Lex (· < ·) (Prod.Lex (· < ·) (· < ·)))

theorem less_wf : WellFounded Less :=
  (Prod.lex Nat.lt_wfRel (Prod.lex Nat.lt_wfRel (Prod.lex Nat.lt_wfRel Nat.lt_wfRel))).wf

/-- **Every step leaves less to do.** -/
theorem step_effort (h : Step f node s t) : Less t.effort s.effort := by
  cases h with
  | unreachable e hreply =>
    apply Prod.Lex.left
    simp only [Effort.rank]
    omega
  | empty bs hreply hempty =>
    apply Prod.Lex.left
    simp only [Effort.rank]
    omega
  | arrive bs hreply hempty =>
    apply Prod.Lex.left
    simp only [Effort.rank, List.length_cons]
    omega
  | begin =>
    apply Prod.Lex.left
    simp only [Effort.rank, List.length_cons]
    omega
  | finish =>
    apply Prod.Lex.left
    simp only [Effort.rank]
    omega
  | reply i part r hpart hreply =>
    obtain ⟨hi, -⟩ := List.getElem?_eq_some_iff.1 hpart
    apply Prod.Lex.right
    apply Prod.Lex.left
    simp only [Effort.awaited, List.length_eraseIdx_of_lt hi]
    omega
  | refuse e hmerge =>
    apply Prod.Lex.left
    simp only [Effort.rank]
    omega
  | close set hmerge hclosed hne =>
    apply Prod.Lex.left
    simp only [Effort.rank]
    omega
  | stream set hmerge hopen =>
    apply Prod.Lex.left
    simp only [Effort.rank]
    omega
  | move m q hm hq =>
    apply Prod.Lex.right
    apply Prod.Lex.right
    exact Pipeline.work_lt _ hq
  | @forward _ _ p _ x rest hout =>
    apply Prod.Lex.right
    apply Prod.Lex.right
    exact Pipeline.work_lt (f.decodeWith {}) (Pipeline.Moved.forward x rest hout).step
  | settle hdrained hfailures =>
    apply Prod.Lex.left
    simp only [Effort.rank]
    omega
  | fail hdrained hfailures =>
    apply Prod.Lex.left
    simp only [Effort.rank]
    omega

/-- No run goes on for ever. -/
theorem acc_step (s : Transfer) : Acc (fun t s => Step f node s t) s :=
  (Subrelation.wf step_effort (InvImage.wf effort less_wf)).apply s

/-! ## Nobody waits for ever -/

/-- The trail tells what the receiver got, and the pipeline can work. -/
structure Kept (s : Transfer) : Prop where
  sent : s.trail.sent = s.pipeline.sent
  able : s.pipeline.Able

theorem Kept.step (hs : s.Kept) (h : Step f node s t) : t.Kept := by
  obtain ⟨hsent, hable⟩ := hs
  cases h with
  | unreachable e hreply => exact ⟨(List.append_nil _).trans hsent, hable⟩
  | empty bs hreply hempty => exact ⟨(List.append_nil _).trans hsent, hable⟩
  | arrive bs hreply hempty => exact ⟨(List.append_nil _).trans hsent, hable⟩
  | begin => exact ⟨(List.append_nil _).trans hsent, hable⟩
  | finish => exact ⟨hsent, hable⟩
  | reply i part r hpart hreply => exact ⟨(List.append_nil _).trans hsent, hable⟩
  | refuse e hmerge => exact ⟨hsent, hable⟩
  | close set hmerge hclosed hne => exact ⟨hsent, hable⟩
  | stream set hmerge hopen =>
    have hable' := Pipeline.able_start f.config.fetchers []
    exact ⟨hsent, ⟨hable'.searches, hable'.raw, hable'.out, hable'.fetchers⟩⟩
  | move m q hm hq =>
    have hmoved := Pipeline.moved_of_step hq
    refine ⟨?_, hable.step hmoved⟩
    rw [Pipeline.sent_step hmoved, ← hsent]
    rfl
  | forward x rest hout =>
    have hmoved : Pipeline.Moved (f.decodeWith {}) _ .forward _ := .forward x rest hout
    refine ⟨?_, hable.step hmoved⟩
    rw [Pipeline.sent_step hmoved, ← hsent]
    exact (List.append_nil _).symm
  | settle hdrained hfailures => exact ⟨hsent, hable⟩
  | fail hdrained hfailures => exact ⟨hsent, hable⟩

/-- Who has not ended can go on. -/
theorem exists_step (htotal : node.Total) (hable : s.pipeline.Able)
    (hgoing : ∀ outcome, s.stage ≠ .ended outcome) : ∃ t, Step f node s t := by
  obtain ⟨stage, left, p, trail⟩ := s
  cases stage with
  | ended outcome => exact absurd rfl (hgoing outcome)
  | idle =>
    rcases left with _ | ⟨seg, left⟩
    · exact ⟨_, .finish⟩
    · exact ⟨_, .begin⟩
  | newest q =>
    obtain ⟨reply, hreply⟩ := htotal.blocks {} RangeFetcher.partSize
    rcases reply with e | bs
    · exact ⟨_, .unreachable e hreply⟩
    · cases hempty : (({} : BlockSet).extend bs).isEmpty with
      | true => exact ⟨_, .empty bs hreply hempty⟩
      | false => exact ⟨_, .arrive bs hreply hempty⟩
  | gathering seg pending arrived =>
    rcases pending with _ | ⟨part, pending⟩
    · cases hmerge : RangeFetcher.merge seg.known (arrived.map Prod.snd) with
      | error e => exact ⟨_, .refuse e hmerge⟩
      | ok set =>
        by_cases hopen : f.isOpen = true ∨ seg.selected set = []
        · exact ⟨_, .stream set hmerge hopen⟩
        · rw [not_or, Bool.not_eq_true] at hopen
          exact ⟨_, .close set hmerge hopen.1 hopen.2⟩
    · obtain ⟨reply, hreply⟩ := htotal.blocks part 0
      exact ⟨_, .reply 0 part reply rfl hreply⟩
  | streaming seg set =>
    cases hdrained : p.isDrained with
    | true =>
      by_cases hfailures : p.failures = []
      · exact ⟨_, .settle hdrained hfailures⟩
      · exact ⟨_, .fail hdrained hfailures⟩
    | false =>
      have hdone : p.isDone = false := by
        rw [← Bool.not_eq_true, Pipeline.isDone_iff, hdrained]
        exact fun h => Bool.false_ne_true h.1
      obtain ⟨m, q, hm, hq⟩ := Pipeline.exists_moved (f.decodeWith set) hable htotal.search
        hdone
      exact ⟨_, .move m q hm hq.step⟩

/-- Who cannot go on has ended and has handed over everything. -/
theorem ended_of_stuck (htotal : node.Total) (hkept : s.Kept) (hstuck : ∀ t, ¬Step f node s t) :
    (∃ outcome, s.stage = .ended outcome) ∧ s.pipeline.out = [] ∧
      s.pipeline.delivered = s.trail.sent := by
  have hended : ∃ outcome, s.stage = .ended outcome := by
    by_contra hgoing
    obtain ⟨t, ht⟩ := exists_step (f := f) htotal hkept.able fun outcome h => hgoing ⟨outcome, h⟩
    exact hstuck t ht
  have hout : s.pipeline.out = [] := by
    cases hout : s.pipeline.out with
    | nil => rfl
    | cons x rest =>
      obtain ⟨stage, left, p, trail⟩ := s
      exact absurd (.forward x rest hout) (hstuck _)
  refine ⟨hended, hout, ?_⟩
  rw [hkept.sent, Pipeline.sent, hout, List.append_nil]

theorem Kept.steps (hs : s.Kept) (h : Steps f node s t) : t.Kept := by
  induction h with
  | refl => exact hs
  | tail _ hstep ih => exact ih.step hstep

theorem kept_start (f : RangeFetcher σ) (segs : List Segment) : (start f segs).Kept where
  sent := rfl
  able := Pipeline.able_start _ _

theorem kept_startLatest (f : RangeFetcher σ) (q : LatestQuery) : (startLatest f q).Kept where
  sent := rfl
  able := Pipeline.able_start _ _

theorem Standing.steps {base : Trail} {segs : List Segment} (hs : Standing f node base segs s)
    (h : Steps f node s t) : Standing f node base segs t := by
  induction h with
  | refl => exact hs
  | tail _ hstep ih => exact ih.step hstep

theorem standing_start (f : RangeFetcher σ) (node : Behavior) (segs : List Segment) :
    Standing f node {} segs (start f segs) :=
  .idle [] ⟨fun _ hr => absurd hr List.not_mem_nil, rfl⟩ rfl

theorem standing_latest {q : LatestQuery} (hs : Steps f node (startLatest f q) s) :
    StandingLatest f node q s := by
  induction hs with
  | refl => exact .waiting
  | tail _ hstep ih => exact ih.step hstep

/-- The end of a delivery: nothing is left in the pipeline for the receiver. -/
structure Over (s : Transfer) : Prop where
  ended : ∃ outcome, s.stage = .ended outcome
  out : s.pipeline.out = []
  delivered : s.pipeline.delivered = s.trail.sent

/-- **Every delivery ends**, if the node replies to everything. -/
theorem ends_of_kept (htotal : node.Total) (hs : s.Kept) :
    Ends (Step f node) (fun t => t.Over ∧ Steps f node s t) s where
  finite := acc_step s
  final t hsteps hstuck := by
    obtain ⟨hended, hout, hdelivered⟩ := ended_of_stuck htotal (hs.steps hsteps) hstuck
    exact ⟨⟨hended, hout, hdelivered⟩, hsteps⟩

end Transfer

end ChainIndex
