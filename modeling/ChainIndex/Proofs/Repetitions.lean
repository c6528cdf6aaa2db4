import ChainIndex.Proofs.Admission

/-!
# A request with its repetitions

To say when a request is sent, a client is run beside the same client whose node puts down each time it is
asked (`Client.recording`). One attempt sends the request once, within the time that is left, or the call is
cancelled before (`Client.attempt_cases`). What comes of an attempt decides whether another one follows
(`Repeats`), and all that is told of the times is read from there.

* `Client.sendAfter_repeats`: a request is sent by the rules of `Repeats`.
* `Client.send_bounded`: **how often, when and for how long a request is sent, and what it gives**, however
  tokens are counted; only why a call is cancelled depends on that (`Client.Grants`).
-/

namespace ChainIndex

variable {τ ν α β : Type}

/-- A request that is sent: when, and how the exchange goes. -/
structure Dispatch where
  start : Instant
  request : Request
  exchange : Exchange

namespace Dispatch

/-- When the exchange is over. -/
def ended (x : Dispatch) : Instant :=
  max x.start x.exchange.finished

/-- The reply, or why there is none of use. -/
def result (x : Dispatch) : Except NodeError Reply :=
  x.exchange.outcome.bind Client.checked

/-- It failed, and may go well if it is repeated. -/
def Transient (x : Dispatch) : Prop :=
  ∃ error, x.result = .error error ∧ error.isTransient = true

/-- What is recorded of it. -/
def metric (label : String) (x : Dispatch) : Metric :=
  .request label (Client.statusOf x.result)

/-- The request is sent in time: it may take some time, but no more than it should, and not beyond the
deadline. -/
structure Within (x : Dispatch) (r : Request) (deadline : Deadline) : Prop where
  request_eq : x.request = { r with timeout := x.request.timeout }
  pos : 0 < x.request.timeout
  le : x.request.timeout ≤ r.timeout
  before : ∀ d ∈ deadline, x.start < d ∧ x.start + x.request.timeout ≤ d ∧ x.ended ≤ d

end Dispatch

/-- The same client with a node that puts down each time it is asked. -/
def Client.recording (c : Client ν) : Client (ν × List Dispatch) where
  config := c.config
  transport r now n :=
    let (exchange, node) := c.transport r now n.1
    (exchange, node, n.2 ++ [{ start := now, request := r, exchange }])
  notAnswer := c.notAnswer

/-- Every exchange is over within the time that it is given. -/
def Client.Prompt (c : Client ν) : Prop :=
  ∀ r now node, (c.transport r now node).1.finished ≤ now + r.timeout

/-- A program of a client comes to this result, and the same program of a client that puts down each time
that its node is asked comes to it as well and puts these down. -/
structure Asking.Records (p : Asking τ ν α) (q : Asking τ (ν × List Dispatch) α) (s : Session τ ν)
    (xs : List Dispatch) (result : Except NodeError α) (t : Session τ ν) : Prop where
  ending_eq : p.ending s = (result, t)
  recorded (log : List Dispatch) :
    q.ending (s.withNode (s.node, log)) = (result, t.withNode (t.node, log ++ xs))

namespace Asking.Records

variable {p : Asking τ ν α} {q : Asking τ (ν × List Dispatch) α} {f : α → Asking τ ν β}
  {g : α → Asking τ (ν × List Dispatch) β} {s t u : Session τ ν} {xs ys : List Dispatch}

theorem bind_ok {a : α} {result : Except NodeError β} (h : Records p q s xs (.ok a) t)
    (hf : Records (f a) (g a) t ys result u) : Records (p >>= f) (q >>= g) s (xs ++ ys) result u where
  ending_eq := (ending_bind_ok h.ending_eq).trans hf.ending_eq
  recorded log := by
    rw [ending_bind_ok (h.recorded log), hf.recorded, List.append_assoc]

theorem bind_error {error : NodeError} (h : Records p q s xs (.error error) t) :
    Records (p >>= f) (q >>= g) s xs (.error error) t where
  ending_eq := ending_bind_error h.ending_eq
  recorded log := ending_bind_error (h.recorded log)

/-- Programs that ask the node nothing. -/
theorem quiet {result : Except NodeError α} (hidle : s.Idles t) (hp : p.ending s = (result, t))
    (hq : ∀ node : ν × List Dispatch, q.ending (s.withNode node) = (result, t.withNode node)) :
    Records p q s [] result t where
  ending_eq := hp
  recorded log := by
    rw [hq, List.append_nil, hidle.node]

theorem liftExcept (result : Except NodeError α) (s : Session τ ν) :
    Records (liftM result) (liftM result) s [] result s := by
  cases result with
  | ok a => exact quiet (.refl s) rfl fun _ => rfl
  | error error => exact quiet (.refl s) rfl fun _ => rfl

end Asking.Records

/-! ## One attempt -/

theorem Session.reach_record_withNode (s : Session τ ν) (t : Instant) (m : Metric)
    (log : List Dispatch) : (Clocked.reach t (s.withNode (s.node, log))).record m =
      ((Clocked.reach t s).record m).withNode (((Clocked.reach t s).record m).node, log) := by
  rw [s.reach_withNode, ← (idles_reach t s).node]
  rfl

namespace Clock

theorem isSome_of_isPast {deadline : Deadline} {now : Instant} (h : isPast deadline now = true) :
    deadline.isSome := by
  cases deadline with
  | none => cases h
  | some d => rfl

/-- What is left of a span is part of it, and over by the deadline. -/
theorem remaining?_spec {span left : Span} {deadline : Deadline} {now : Instant} (hspan : 0 < span)
    (h : remaining? span deadline now = some left) :
    0 < left ∧ left ≤ span ∧ ∀ d ∈ deadline, now < d ∧ now + left ≤ d := by
  cases deadline with
  | none =>
    obtain rfl : span = left := Option.some.inj h
    exact ⟨hspan, le_rfl, nofun⟩
  | some d =>
    by_cases hpast : d ≤ now
    · rw [remaining?, if_pos hpast] at h
      cases h
    · rw [remaining?, if_neg hpast] at h
      obtain rfl := Option.some.inj h
      have hbefore : now < d := Nat.lt_of_not_le hpast
      refine ⟨Nat.lt_min.2 ⟨hspan, Nat.sub_pos_of_lt hbefore⟩, Nat.min_le_left _ _, ?_⟩
      rintro _ ⟨⟩
      have hleft : min span (d - now) ≤ d - now := Nat.min_le_right _ _
      exact ⟨hbefore, Nat.add_le_of_le_sub' hbefore.le hleft⟩

end Clock

namespace Client

variable [Quantity τ] {e : Endpoint} {deadline : Deadline} {I : Session τ ν → Prop} {reason : Prop}
  {s : Session τ ν}

/-- **One attempt** sends the request once and in time, or the call is cancelled before. -/
theorem attempt_cases (c : Client ν) (hprompt : c.Prompt) (label : String) {r : Request}
    (htimeout : 0 < r.timeout) (hg : Grants e deadline I reason) (h : I s) :
    (∃ t, Asking.Records (c.attempt e label r deadline) (c.recording.attempt e label r deadline) s []
        (.error .cancelled) t ∧ reason ∧ t.journal = s.journal) ∨
    ∃ x t, Asking.Records (c.attempt e label r deadline) (c.recording.attempt e label r deadline) s [x]
        (.ok x.result) t ∧ s.now ≤ x.start ∧ x.Within r deadline ∧ t.now = x.ended ∧
      t.journal = x.metric label :: s.journal ∧ I t := by
  obtain ⟨result, t, htoken, hidle, hkept, hresult⟩ := hg.token s h
  have hbeside (node : ν × List Dispatch) := ending_takeToken_withNode e deadline htoken node
  rcases hresult with rfl | ⟨rfl, hreason⟩
  · have hplain := c.ending_attempt label r htoken
    have hrecording (node : ν × List Dispatch) := c.recording.ending_attempt label r (hbeside node)
    have hnow (node : ν × List Dispatch) : (t.withNode node).now = t.now := rfl
    simp only [hnow] at hrecording
    cases hleft : Clock.remaining? r.timeout deadline t.now with
    | none =>
      -- the token came too late
      obtain ⟨d, rfl, -⟩ := remaining?_eq_none_iff.1 hleft
      simp only [hleft] at hplain hrecording
      exact .inl ⟨t, .quiet hidle hplain hrecording, hg.late rfl, hidle.journal⟩
    | some timeout =>
      obtain ⟨hpos, hle, hbefore⟩ := Clock.remaining?_spec htimeout hleft
      rcases htransport : c.transport { r with timeout } t.now t.node with ⟨exchange, node⟩
      have hfinished := hprompt { r with timeout } t.now t.node
      simp only [hleft, htransport] at hplain hrecording hfinished
      let x : Dispatch := { start := t.now, request := { r with timeout }, exchange }
      have hended : x.ended ≤ t.now + timeout := max_le (Nat.le_add_right _ _) hfinished
      refine .inr ⟨x, _, ⟨hplain, fun log => ?_⟩, hidle.now_le, ⟨rfl, hpos, hle, fun d hd => ?_⟩,
        Session.now_reach exchange.finished { t with node }, ?_, hg.exchanged hkept node _ _⟩
      · have hdown : c.recording.transport { r with timeout } t.now (s.node, log) =
            (exchange, node, log ++ [x]) := by
          rw [← hidle.node]
          simp only [recording, htransport, x]
        have hrecorded := hrecording (s.node, log)
        have hnode : (t.withNode (s.node, log)).node = (s.node, log) := rfl
        simp only [hnode, hdown] at hrecorded
        exact hrecorded.trans <| congrArg (Prod.mk _) <|
          Session.reach_record_withNode { t with node } exchange.finished _ (log ++ [x])
      · obtain ⟨hstart, hend⟩ := hbefore d hd
        exact ⟨hstart, hend, hended.trans hend⟩
      · have hjournal := (Session.idles_reach exchange.finished { t with node }).journal
        exact congrArg (x.metric label :: ·) (hjournal.trans hidle.journal)
  · refine .inl ⟨t, .quiet hidle ?_ fun node => ?_, hreason, hidle.journal⟩
    · exact Asking.ending_bind_error htoken
    · exact Asking.ending_bind_error (hbeside node)

end Client

/-! ## One attempt after the other -/

/-- A request is sent again after a failure that may pass, no sooner than the pause is over, and so often
at most, unless there is a reason to cancel the call. It was sent a number of times before, and may be
repeated a number of times after its first time from now on. -/
inductive Repeats (reason : Prop) (r : Request) (deadline : Deadline) (step : Span) :
    (made left : Nat) → Instant → List Dispatch → Except NodeError Reply → Prop where
  /-- The call is cancelled before the request is sent again. -/
  | cancelled {made left : Nat} {now : Instant} (hreason : reason) :
    Repeats reason r deadline step made left now [] (.error .cancelled)
  /-- What comes of it now is the result. -/
  | last {made left : Nat} {now : Instant} {x : Dispatch} (hstart : now ≤ x.start)
    (hwithin : x.Within r deadline) (hlast : ¬x.Transient ∨ left = 0) :
    Repeats reason r deadline step made left now [x] x.result
  | again {made left : Nat} {now : Instant} {x : Dispatch} {xs : List Dispatch}
    {result : Except NodeError Reply} (hstart : now ≤ x.start) (hwithin : x.Within r deadline)
    (htransient : x.Transient)
    (hrest : Repeats reason r deadline step (made + 1) left
      (x.ended + min (step * (made + 1)) Clock.longest) xs result) :
    Repeats reason r deadline step made (left + 1) now (x :: xs) result

namespace Repeats

variable {reason : Prop} {r : Request} {deadline : Deadline} {step : Span} {made left : Nat}
  {now : Instant} {xs : List Dispatch} {result : Except NodeError Reply}

theorem le_start (h : Repeats reason r deadline step made left now xs result) {x : Dispatch}
    (hx : xs[0]? = some x) : now ≤ x.start := by
  cases h with
  | cancelled => cases hx
  | last hstart => exact Option.some.inj hx ▸ hstart
  | again hstart => exact Option.some.inj hx ▸ hstart

theorem of_le {sooner : Instant} (h : Repeats reason r deadline step made left now xs result)
    (hle : sooner ≤ now) : Repeats reason r deadline step made left sooner xs result := by
  cases h with
  | cancelled hreason => exact .cancelled hreason
  | last hstart hwithin hlast => exact .last (hle.trans hstart) hwithin hlast
  | again hstart hwithin htransient hrest => exact .again (hle.trans hstart) hwithin htransient hrest

theorem length_le (h : Repeats reason r deadline step made left now xs result) : xs.length ≤ left + 1 := by
  induction h with
  | cancelled => exact Nat.zero_le _
  | last => exact Nat.le_add_left _ _
  | again _ _ _ _ ih => exact Nat.succ_le_succ ih

theorem within (h : Repeats reason r deadline step made left now xs result) :
    ∀ x ∈ xs, x.Within r deadline := by
  induction h with
  | cancelled => exact List.forall_mem_nil _
  | last _ hwithin => exact List.forall_mem_singleton.2 hwithin
  | again _ hwithin _ _ ih => exact List.forall_mem_cons.2 ⟨hwithin, ih⟩

/-- **Between two times** the failure may pass, and the pause does. -/
theorem spaced (h : Repeats reason r deadline step made left now xs result) :
    ∀ k x y, xs[k]? = some x → xs[k + 1]? = some y →
      x.Transient ∧ x.ended + min (step * (made + k + 1)) Clock.longest ≤ y.start := by
  induction h with
  | cancelled =>
    intro k x y hx
    cases hx
  | last =>
    intro k x y _ hy
    cases hy
  | @again made left now x xs result _ _ htransient hrest ih =>
    intro k x' y hx hy
    cases k with
    | zero =>
      obtain rfl := Option.some.inj hx
      exact ⟨htransient, hrest.le_start hy⟩
    | succ k =>
      have hnext := ih k x' y hx hy
      rwa [Nat.add_right_comm made 1 k] at hnext

/-- **How it ends**: with what came of the last time, or because the call is cancelled. -/
theorem ends (h : Repeats reason r deadline step made left now xs result) :
    (∃ x, xs.getLast? = some x ∧ result = x.result ∧ (¬x.Transient ∨ xs.length = left + 1)) ∨
      result = .error .cancelled ∧ reason ∧ ∀ x ∈ xs, x.Transient := by
  induction h with
  | cancelled hreason => exact .inr ⟨rfl, hreason, List.forall_mem_nil _⟩
  | @last _ left _ x _ _ hlast =>
    refine .inl ⟨x, rfl, rfl, hlast.imp_right ?_⟩
    rintro rfl
    rfl
  | @again _ left _ x xs _ _ _ htransient hrest ih =>
    rcases ih with ⟨y, hy, hresult, hlast⟩ | ⟨hresult, hreason, hall⟩
    · refine .inl ⟨y, ?_, hresult, hlast.imp_right (congrArg (· + 1))⟩
      rw [List.getLast?_cons, hy]
      rfl
    · exact .inr ⟨hresult, hreason, List.forall_mem_cons.2 ⟨htransient, hall⟩⟩

end Repeats

namespace Client

variable [Quantity τ] {e : Endpoint} {deadline : Deadline} {I : Session τ ν → Prop} {reason : Prop}
  {s : Session τ ν}

/-- A pause lasts as long as it should, unless that is longer than any timer runs. -/
theorem pause_cases (wait : Span) (hg : Grants e deadline I reason) (h : I s) :
    (Asking.Records (pause wait deadline) (pause wait deadline) s [] (.error .cancelled) s ∧ reason) ∨
    ∃ t, Asking.Records (pause wait deadline) (pause wait deadline) s [] (.ok ()) t ∧
      s.now + min wait Clock.longest ≤ t.now ∧ t.journal = s.journal ∧ I t := by
  have hbeside (node : ν × List Dispatch) := ending_pause wait deadline (s.withNode node)
  by_cases hpast : Clock.isPast deadline (s.now + wait) = true
  · refine .inl ⟨.quiet (.refl s) ((ending_pause wait deadline s).trans (if_pos hpast)) fun node => ?_,
      hg.late (Clock.isSome_of_isPast hpast)⟩
    exact (hbeside node).trans (if_pos hpast)
  · have hidle := Session.idles_reach (Clock.after s.now wait) s
    refine .inr ⟨_, .quiet hidle ((ending_pause wait deadline s).trans (if_neg hpast)) fun node => ?_,
      ?_, hidle.journal, hg.reach h _⟩
    · rw [← Session.reach_withNode]
      exact (hbeside node).trans (if_neg hpast)
    · rw [Session.now_reach]
      exact (Clock.min_le_after _ _).trans (le_max_right _ _)

theorem sendAfter_repeats (c : Client ν) (hprompt : c.Prompt) (label : String) {r : Request}
    (htimeout : 0 < r.timeout) (hg : Grants e deadline I reason) (made left : Nat) (h : I s) :
    ∃ xs result t, Asking.Records (c.sendAfter e label r deadline made left)
        (c.recording.sendAfter e label r deadline made left) s xs result t ∧
      Repeats reason r deadline c.config.retry.step made left s.now xs result ∧
      t.journal = (xs.map (Dispatch.metric label)).reverse ++ s.journal := by
  -- by induction on the attempts that are left; what is kept holds whenever one begins
  induction left generalizing made s with
  | zero =>
    rcases c.attempt_cases hprompt label htimeout hg h with
      ⟨t, hrecords, hreason, hjournal⟩ | ⟨x, t, hrecords, hstart, hwithin, hnow, hjournal, hkept⟩
    · exact ⟨[], _, t, hrecords.bind_error, .cancelled hreason, hjournal⟩
    · exact ⟨[x], x.result, t, hrecords.bind_ok (.liftExcept x.result t),
        .last hstart hwithin (.inr rfl), hjournal⟩
  | succ left ih =>
    rcases c.attempt_cases hprompt label htimeout hg h with
      ⟨t, hrecords, hreason, hjournal⟩ | ⟨x, t, hrecords, hstart, hwithin, hnow, hjournal, hkept⟩
    · exact ⟨[], _, t, hrecords.bind_error, .cancelled hreason, hjournal⟩
    have hlast : ¬x.Transient →
        Repeats reason r deadline c.config.retry.step made (left + 1) s.now [x] x.result :=
      fun hfinal => .last hstart hwithin (.inl hfinal)
    cases hresult : x.result with
    | ok reply =>
      rw [hresult] at hrecords hlast
      refine ⟨[x], .ok reply, t, hrecords.bind_ok (.quiet (.refl t) rfl fun _ => rfl), hlast ?_, hjournal⟩
      rintro ⟨error, herror, -⟩
      cases hresult.symm.trans herror
    | error error =>
      rw [hresult] at hrecords hlast
      by_cases htransient : error.isTransient = true
      · -- the failure may pass: a pause, and the other attempts
        have hagain : x.Transient := ⟨error, hresult, htransient⟩
        rcases pause_cases (c.config.retry.step * (made + 1)) hg hkept with
          ⟨hpause, hreason⟩ | ⟨u, hpause, hlate, hquiet, hkept'⟩
        · refine ⟨[x], .error .cancelled, t, hrecords.bind_ok ?_,
            .again hstart hwithin hagain (.cancelled hreason), hjournal⟩
          simp only [htransient, Bool.not_true, Bool.false_eq_true, if_false]
          exact hpause.bind_error
        · obtain ⟨xs, result, v, hrest, hrepeats, hjournal'⟩ := ih (made + 1) hkept'
          refine ⟨x :: xs, result, v, hrecords.bind_ok ?_,
            .again hstart hwithin hagain (hrepeats.of_le (hnow ▸ hlate)), ?_⟩
          · simp only [htransient, Bool.not_true, Bool.false_eq_true, if_false]
            exact hpause.bind_ok hrest
          · rw [hjournal', hquiet, hjournal, List.map_cons, List.reverse_cons, List.append_assoc]
            rfl
      · refine ⟨[x], .error error, t, hrecords.bind_ok ?_, hlast ?_, hjournal⟩
        · simp only [htransient, Bool.not_false, if_true]
          exact .quiet (.refl t) rfl fun _ => rfl
        · rintro ⟨error', herror, htransient'⟩
          cases hresult.symm.trans herror
          exact htransient htransient'

/-- A request is sent, and the call is cancelled only for this reason. -/
structure Sent (c : Client ν) (e : Endpoint) (label : String) (r : Request) (deadline : Deadline)
    (reason : Prop) (s : Session τ ν) (xs : List Dispatch) (result : Except NodeError Reply)
    (t : Session τ ν) : Prop where
  /-- These are the times that the node is asked. -/
  records : Asking.Records (c.send e label r deadline) (c.recording.send e label r deadline) s xs result t
  bounded : xs.length ≤ max 1 c.config.retry.attempts
  /-- **Each time is recorded once**, and nothing else is. -/
  journal : t.journal = (xs.map (Dispatch.metric label)).reverse ++ s.journal
  /-- **It is sent again only after a failure that may pass, and after a pause** that grows with each time
  and is cut short only where it is longer than any timer runs. -/
  spaced : ∀ k x y, xs[k]? = some x → xs[k + 1]? = some y →
    x.Transient ∧ x.ended + min (c.config.retry.step * (k + 1)) Clock.longest ≤ y.start
  within : ∀ x ∈ xs, x.Within r deadline
  /-- **It gives what came of the last time**: that is the first that is not such a failure, or the last of
  all attempts. Otherwise the call is cancelled. -/
  ends : (∃ x, xs.getLast? = some x ∧ result = x.result ∧
      (¬x.Transient ∨ xs.length = max 1 c.config.retry.attempts)) ∨
    result = .error .cancelled ∧ reason ∧ ∀ x ∈ xs, x.Transient

theorem exists_sent (c : Client ν) (hprompt : c.Prompt) (label : String) {r : Request}
    (htimeout : 0 < r.timeout) (hg : Grants e deadline I reason) (h : I s) :
    ∃ xs result t, Sent c e label r deadline reason s xs result t := by
  obtain ⟨xs, result, t, hrecords, hrepeats, hjournal⟩ :=
    c.sendAfter_repeats hprompt label htimeout hg 0 (c.config.retry.attempts - 1) h
  have hattempts : c.config.retry.attempts - 1 + 1 = max 1 c.config.retry.attempts := by omega
  have hbounded := hrepeats.length_le
  have hspaced := hrepeats.spaced
  have hends := hrepeats.ends
  rw [hattempts] at hbounded hends
  simp only [Nat.zero_add] at hspaced
  exact ⟨xs, result, t, hrecords, hbounded, hjournal, hspaced, hrepeats.within, hends⟩

/-- **A request is sent a bounded number of times**, each time within its timeout and the deadline, however
tokens are counted (`Sent`). Where tokens come back and are counted in exact fractions, the call is cancelled
only if there is a deadline. -/
theorem send_bounded (c : Client ν) (hprompt : c.Prompt) (e : Endpoint) (label : String) {r : Request}
    (htimeout : 0 < r.timeout) (deadline : Deadline) :
    (∀ (τ : Type) [Quantity τ] (s : Session τ ν), ∃ xs result t,
      Sent c e label r deadline True s xs result t) ∧
    ∀ s : Session ℚ ν, Flows e s → ∃ xs result t,
      Sent c e label r deadline deadline.isSome s xs result t :=
  ⟨fun _ _ _ => c.exists_sent hprompt label htimeout (grants_any e deadline) trivial,
    fun _ h => c.exists_sent hprompt label htimeout (grants_flows e deadline) h⟩

/-- A client of a node that is always busy. -/
def ofBusyNode (retry : Retry) : Client Unit where
  config := { retry }
  transport _ now node := ({ outcome := .ok { status := 503 }, finished := now }, node)

theorem prompt_ofBusyNode (retry : Retry) : (ofBusyNode retry).Prompt :=
  fun r now _ => Nat.le_add_right now r.timeout

theorem flows_start (config : ClientConfig) (node : ν) :
    Flows .chain (Session.start config node : Session ℚ ν) :=
  Bucket.Flows.full_perSecond _ _

/-- Two seconds are enough for three attempts, with pauses of half a second and a whole one. -/
theorem send_bounded_busy :
    let c := ofBusyNode {}
    let r : Request := { path := "/block", timeout := Clock.ofSeconds 30 }
    let s : Session ℚ Unit := .start c.config ()
    let deadline : Deadline := some (Clock.ofSeconds 2)
    c.Prompt ∧ 0 < r.timeout ∧ Flows .chain s ∧
      ∃ xs result t, Sent c .chain r.path r deadline deadline.isSome s xs result t ∧ xs.length ≤ 3 := by
  intro c r s deadline
  have htimeout : 0 < r.timeout := by decide
  have hflows := flows_start c.config ()
  obtain ⟨xs, result, t, hsent⟩ :=
    (send_bounded c (prompt_ofBusyNode {}) .chain r.path htimeout deadline).2 s hflows
  exact ⟨prompt_ofBusyNode {}, htimeout, hflows, xs, result, t, hsent, hsent.bounded⟩

example :
    let c := ofBusyNode {}
    let r : Request := { path := "/block", timeout := Clock.ofSeconds 30 }
    let s : Session ℚ (Unit × List Dispatch) := .start c.config ((), [])
    let d := some (Clock.ofSeconds 2)
    ((c.recording.send .chain r.path r d).ending s).2.node.2.map Dispatch.start =
      [0, Clock.ofMillis 500, Clock.ofMillis 1500] := by
  decide +kernel

/-- **A pause that is longer than any timer runs is cut short**: of two attempts with a pause of more than
thirty-one years, the second is made after thirty. -/
theorem pause_cut_short :
    let c := ofBusyNode { attempts := 2, step := Clock.ofMillis 1000000000000 }
    let r : Request := { path := "/block", timeout := Clock.ofSeconds 30 }
    let s : Session ℚ (Unit × List Dispatch) := .start c.config ((), [])
    let later := Clock.ofMillis 946080000000
    c.Prompt ∧ 0 < r.timeout ∧ Flows .chain s ∧
      ((c.recording.send .chain r.path r none).ending s).2.node.2.map (fun x => (x.start, x.ended)) =
        [(0, 0), (later, later)] ∧
      later < 0 + c.config.retry.step * 1 := by
  intro c r s later
  refine ⟨prompt_ofBusyNode _, by decide, flows_start c.config ((), []), ?_, by decide⟩
  decide +kernel

end Client

end ChainIndex
