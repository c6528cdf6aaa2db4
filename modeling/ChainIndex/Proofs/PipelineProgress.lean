import ChainIndex.Proofs.PipelineFlow

/-!
# A pipeline never gets stuck

The queues between the stages are bounded, so a stage may have to wait for the next one; but the last
one, the forwarder, never waits. Following the pipeline backwards from it shows that **somebody can
always go on until nothing is left to do** (`exists_moved`), whichever searches the node answers.
-/

namespace ChainIndex.Pipeline

variable {decoder : RawTransaction → Except DecodeError (Measured Transaction)}
  {answers : SearchPage → SearchReply → Prop} {p : Pipeline}

/-- Queues that can hold something, and somebody to ask for it. -/
structure Able (p : Pipeline) : Prop where
  searches : 0 < p.capacities.searches
  raw : 0 < p.capacities.raw
  out : 0 < p.capacities.out
  fetchers : 0 < p.fetchers.length

theorem able_start (n : Nat) (bs : List Block) : (start n bs).Able where
  searches := Nat.zero_lt_succ 9
  raw := Nat.zero_lt_succ 19
  out := Nat.zero_lt_succ 200
  fetchers := by
    show 0 < (List.replicate (max n 1) Fetch.free).length
    rw [List.length_replicate]
    omega

theorem Able.step {q : Pipeline} {m : Move} (hp : p.Able) (h : Moved decoder p m q) : q.Able := by
  obtain ⟨hcapacities, hfetchers⟩ := step_shape h
  exact ⟨hcapacities ▸ hp.searches, hcapacities ▸ hp.raw, hcapacities ▸ hp.out,
    hfetchers ▸ hp.fetchers⟩

theorem Able.hasRoom (hp : p.Able) (hout : p.out = []) : p.hasRoom = true := by
  rw [Pipeline.hasRoom, hout]
  exact decide_eq_true hp.out

theorem Able.hasSearchRoom (hp : p.Able) (hsearches : p.searches = []) :
    p.hasSearchRoom = true := by
  rw [Pipeline.hasSearchRoom, hsearches]
  exact decide_eq_true hp.searches

theorem Able.rawRoom (hp : p.Able) (hraw : p.raw = []) : 0 < p.rawRoom := by
  rw [Pipeline.rawRoom, hraw]
  exact hp.raw

theorem permits_answer {place : Nat} {s : SearchPage} {reply : SearchReply}
    (hasking : p.fetchers[place]? = some (.asking s)) :
    p.Permits answers (.answer place reply) ↔ answers s reply := by
  rw [Permits, ended, hasking]
  constructor
  · intro h
    exact h (s, reply) (List.mem_singleton_self _)
  · intro h x hx
    rw [List.mem_singleton.1 hx]
    exact h

/-- A move of a fetcher that does something. -/
def Move.isBusy : Move → Bool
  | .answer _ _ | .hand _ => true
  | _ => false

/-- A fetcher that does something can go on when nothing waits to be decoded. -/
theorem exists_moved_fetcher (hp : p.Able) (htotal : ∀ s, ∃ reply, answers s reply)
    (hraw : p.raw = []) {x : Fetch} (hx : x ∈ p.fetchers) (hbusy : x.isFree = false) :
    ∃ m q, m.isBusy = true ∧ p.Permits answers m ∧ Moved decoder p m q := by
  obtain ⟨place, hplace⟩ := List.mem_iff_getElem?.1 hx
  cases x with
  | free => cases hbusy
  | asking s =>
    obtain ⟨reply, hreply⟩ := htotal s
    have hm := (permits_answer hplace).2 hreply
    rcases reply with e | txs
    · exact ⟨_, _, rfl, hm, .lost place s e hplace⟩
    · exact ⟨_, _, rfl, hm, .found place s txs hplace⟩
  | handing txs =>
    rcases txs with _ | ⟨tx, txs⟩
    · exact ⟨_, _, rfl, permits_of_ended rfl, .leave place hplace⟩
    · exact ⟨_, _, rfl, permits_of_ended rfl, .hand place tx txs hplace (hp.rawRoom hraw)⟩

variable (decoder) in
/-- **Somebody can go on until nothing is left to do.** -/
theorem exists_moved (hp : p.Able) (htotal : ∀ s, ∃ reply, answers s reply)
    (h : p.isDone = false) : ∃ m q, p.Permits answers m ∧ Moved decoder p m q := by
  -- backwards: each stage can only wait for one that has been looked at before
  rcases hout : p.out with _ | ⟨x, rest⟩
  swap
  · exact ⟨_, _, permits_of_ended rfl, .forward x rest hout⟩
  rcases hdecoded : p.decoded with _ | t
  swap
  · exact ⟨_, _, permits_of_ended rfl, .passOn t hdecoded (hp.hasRoom hout)⟩
  rcases hraw : p.raw with _ | ⟨tx, rest⟩
  swap
  · rcases ht : decoder tx with e | t
    · exact ⟨_, _, permits_of_ended rfl, .drop tx rest e hdecoded hraw ht⟩
    · exact ⟨_, _, permits_of_ended rfl, .decode tx rest t hdecoded hraw ht⟩
  by_cases hfree : p.fetchers.all Fetch.isFree = true
  swap
  · obtain ⟨x, hx, hbusy⟩ := List.all_eq_false.1 (Bool.eq_false_iff.2 hfree)
    obtain ⟨m, q, -, hm, hq⟩ := exists_moved_fetcher hp htotal hraw hx (Bool.eq_false_iff.2 hbusy)
    exact ⟨m, q, hm, hq⟩
  rcases hsearches : p.searches with _ | ⟨s, rest⟩
  swap
  · have hfirst : p.fetchers[0]? = some .free := by
      rw [List.getElem?_eq_getElem hp.fetchers]
      exact congrArg some (Fetch.eq_free (List.all_eq_true.1 hfree _ (List.getElem_mem _)))
    exact ⟨_, _, permits_of_ended rfl, .take 0 s rest hsearches hfirst⟩
  rcases hplan : p.plan with _ | ⟨job, rest⟩
  · have hdone : p.isDone = true := by
      simp [isDone, hplan, hsearches, hfree, hraw, hdecoded, hout]
    rw [hdone] at h
    cases h
  · cases job with
    | pass b => exact ⟨_, _, permits_of_ended rfl, .passBlock b rest hplan (hp.hasRoom hout)⟩
    | search s =>
      exact ⟨_, _, permits_of_ended rfl, .queueSearch s rest hplan (hp.hasSearchRoom hsearches)⟩

end ChainIndex.Pipeline
