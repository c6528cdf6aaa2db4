import ChainIndex.Node.Client
import Mathlib.Data.List.Basic

/-!
# What reaches the node

Everything a client asks goes through one exchange after the other. To say which there were, a client is
run beside the same client whose node takes notes (`Client.noting`). The notes change nothing, so the two
come to the same result and differ in the notes alone (`Performs`); programs that are put together make
the exchanges of their parts (`Does.bind`).

* `does_send`: a request is sent again and again until a reply is given, and **nothing is sent only if the
  call is cancelled before**.
* `does_askChain`: what a question about the chain gives is read from the last reply.
-/

namespace ChainIndex

/-- A request that reached the node, and how the exchange went. -/
structure Note where
  request : Request
  exchange : Exchange

namespace Note

/-- The node answered with a status that does not mean failure. -/
def Replied (n : Note) (reply : Reply) : Prop :=
  n.exchange.outcome = .ok reply ∧ reply.status < 400

end Note

variable {τ ν α β : Type}

/-- The same client with a node that notes every exchange. -/
def Client.noting (c : Client ν) : Client (ν × List Note) where
  config := c.config
  transport r now n :=
    let (exchange, node) := c.transport r now n.1
    (exchange, node, n.2 ++ [{ request := r, exchange }])
  notAnswer := c.notAnswer

/-- The same session with a node that has taken notes. -/
def Session.withNotes (s : Session τ ν) (notes : List Note) : Session τ (ν × List Note) where
  now := s.now
  chainBucket := s.chainBucket
  accountBucket := s.accountBucket
  cache := s.cache
  journal := s.journal
  node := (s.node, notes)

/-- The same session with another node. -/
def Session.withNode {μ : Type} (s : Session τ ν) (node : μ) : Session τ μ where
  now := s.now
  chainBucket := s.chainBucket
  accountBucket := s.accountBucket
  cache := s.cache
  journal := s.journal
  node := node

/-! ## Programs that are run to their end -/

section Run

variable {σ : Type} [Clocked σ]

@[simp]
theorem Activity.run_pure (a : α) (s : σ) : (pure a : Activity σ α).run s = (a, s) :=
  rfl

@[simp]
theorem Activity.run_get (s : σ) : (get : Activity σ σ).run s = (s, s) :=
  rfl

@[simp]
theorem Activity.run_set (s t : σ) : (set t : Activity σ PUnit).run s = ((), t) :=
  rfl

@[simp]
theorem Activity.run_await (t : Instant) (s : σ) :
    (Activity.await t).run s = ((), Clocked.reach t s) :=
  rfl

end Run

namespace Asking

/-- The result of a program that is alone in the world, and the session then. -/
def ending (p : Asking τ ν α) (s : Session τ ν) : Except NodeError α × Session τ ν :=
  Activity.run (ExceptT.run p) s

variable {p : Asking τ ν α} {f : α → Asking τ ν β} {s t : Session τ ν}

theorem ending_bind_ok {a : α} (h : p.ending s = (.ok a, t)) :
    (p >>= f).ending s = (f a).ending t := by
  unfold ending at *
  rw [ExceptT.run_bind, Activity.run_bind, h]

theorem ending_bind_error {e : NodeError} (h : p.ending s = (.error e, t)) :
    (p >>= f).ending s = (.error e, t) := by
  unfold ending at *
  rw [ExceptT.run_bind, Activity.run_bind, h]
  rfl

/-- An activity by itself cannot fail. -/
theorem ending_lift (a : Activity (Session τ ν) α) (s : Session τ ν) :
    ending (ExceptT.lift a) s = (.ok (a.run s).1, (a.run s).2) := by
  show Activity.run (a >>= fun x => pure (Except.ok x)) s = _
  rw [Activity.run_bind, Activity.run_pure]

@[simp]
theorem ending_get (s : Session τ ν) : (get : Asking τ ν (Session τ ν)).ending s = (.ok s, s) :=
  rfl

/-- Two programs, one for a client and one for the same client with notes, come to the same result, and
these are the notes. -/
structure Performs (p : Asking τ ν α) (q : Asking τ (ν × List Note) α) (s : Session τ ν)
    (notes : List Note) (result : Except NodeError α) (t : Session τ ν) : Prop where
  ending_eq : p.ending s = (result, t)
  noted (before : List Note) :
    q.ending (s.withNotes before) = (result, t.withNotes (before ++ notes))

/-- In this session, two such programs agree in everything that is told here. -/
def Does (s : Session τ ν) (p : Asking τ ν α) (q : Asking τ (ν × List Note) α)
    (told : List Note → Except NodeError α → Session τ ν → Prop) : Prop :=
  ∃ notes result t, Performs p q s notes result t ∧ told notes result t

section Does

variable {q : Asking τ (ν × List Note) α} {g : α → Asking τ (ν × List Note) β}
  {P P' : List Note → Except NodeError α → Session τ ν → Prop}
  {Q : List Note → Except NodeError β → Session τ ν → Prop}

theorem Does.bind (h : Does s p q P)
    (hok : ∀ notes a t, P notes (.ok a) t →
      Does t (f a) (g a) fun others result u => Q (notes ++ others) result u)
    (herror : ∀ notes e t, P notes (.error e) t → Q notes (.error e) t) :
    Does s (p >>= f) (q >>= g) Q := by
  obtain ⟨notes, e | a, t, hp, hP⟩ := h
  · exact ⟨notes, .error e, t, ⟨ending_bind_error hp.ending_eq, fun before =>
      ending_bind_error (hp.noted before)⟩, herror notes e t hP⟩
  · obtain ⟨others, result, u, hf, hQ⟩ := hok notes a t hP
    refine ⟨notes ++ others, result, u, ⟨?_, fun before => ?_⟩, hQ⟩
    · rw [ending_bind_ok hp.ending_eq, hf.ending_eq]
    · rw [ending_bind_ok (hp.noted before), hf.noted, List.append_assoc]

theorem Does.imp (h : Does s p q P) (himp : ∀ notes result t, P notes result t → P' notes result t) :
    Does s p q P' := by
  obtain ⟨notes, result, t, hp, hP⟩ := h
  exact ⟨notes, result, t, hp, himp notes result t hP⟩

/-- Programs without an exchange. -/
theorem does_quiet (result : Except NodeError α) (t : Session τ ν) (hp : p.ending s = (result, t))
    (hq : ∀ before, q.ending (s.withNotes before) = (result, t.withNotes before))
    (h : P [] result t) : Does s p q P :=
  ⟨[], result, t, ⟨hp, fun before => by rw [List.append_nil]; exact hq before⟩, h⟩

theorem does_pure {a : α} (h : P [] (.ok a) s) : Does s (pure a) (pure a) P :=
  does_quiet _ _ rfl (fun _ => rfl) h

theorem does_throw {e : NodeError} (h : P [] (.error e) s) : Does s (throw e) (throw e) P :=
  does_quiet _ _ rfl (fun _ => rfl) h

theorem does_liftExcept {result : Except NodeError α} (h : P [] result s) :
    Does s (liftM result) (liftM result) P := by
  cases result with
  | ok a => exact does_quiet _ _ rfl (fun _ => rfl) h
  | error e => exact does_quiet _ _ rfl (fun _ => rfl) h

end Does

end Asking

/-! ## Waiting -/

namespace Session

theorem reach_withNode {μ : Type} (s : Session τ ν) (t : Instant) (node : μ) :
    Clocked.reach t (s.withNode node) = (Clocked.reach t s).withNode node := by
  unfold Clocked.reach
  show (if s.now < t then _ else _) = Session.withNode (if s.now < t then _ else _) node
  split <;> rfl

theorem withBucket_withNode {μ : Type} (s : Session τ ν) (e : Endpoint) (b : Bucket τ) (node : μ) :
    (s.withNode node).withBucket e b = (s.withBucket e b).withNode node := by
  cases e <;> rfl

theorem bucket_withNode {μ : Type} (s : Session τ ν) (e : Endpoint) (node : μ) :
    (s.withNode node).bucket e = s.bucket e := by
  cases e <;> rfl

/-- Nothing happens from one session to another but that tokens are taken and time passes. -/
structure Idles (s t : Session τ ν) : Prop where
  now_le : s.now ≤ t.now
  cache : t.cache = s.cache
  journal : t.journal = s.journal
  node : t.node = s.node

variable {s t u : Session τ ν}

theorem Idles.refl (s : Session τ ν) : s.Idles s :=
  ⟨Nat.le_refl _, rfl, rfl, rfl⟩

theorem Idles.trans (h : s.Idles t) (h' : t.Idles u) : s.Idles u :=
  ⟨Nat.le_trans h.now_le h'.now_le, h'.cache.trans h.cache, h'.journal.trans h.journal,
    h'.node.trans h.node⟩

theorem idles_withBucket (e : Endpoint) (b : Bucket τ) (s : Session τ ν) :
    s.Idles (s.withBucket e b) := by
  cases e <;> exact ⟨Nat.le_refl _, rfl, rfl, rfl⟩

theorem idles_reach (t : Instant) (s : Session τ ν) : s.Idles (Clocked.reach t s) := by
  unfold Clocked.reach
  split
  · exact ⟨Nat.le_of_lt ‹_›, rfl, rfl, rfl⟩
  · exact .refl s

/-- A node that takes notes is as it was. -/
theorem Idles.withNotes (h : s.Idles t) (before : List Note) :
    t.withNode (s.node, before) = t.withNotes before := by
  rw [← h.node]
  rfl

theorem reach_withNotes (s : Session τ ν) (t : Instant) (before : List Note) :
    Clocked.reach t (s.withNotes before) = (Clocked.reach t s).withNotes before :=
  (s.reach_withNode t _).trans ((idles_reach t s).withNotes before)

end Session

variable [Quantity τ]

/-- One request for a token, and what comes of it. -/
theorem Bucket.run_acquireIn_succ {σ : Type} [Clocked σ] (bucket : σ → Bucket τ)
    (withBucket : Bucket τ → σ → σ) (deadline : Deadline) (tries : Nat) (s : σ) :
    (acquireIn bucket withBucket deadline (tries + 1)).run s =
      match (bucket s).request deadline (Clocked.now s) with
      | (.granted, b) => (true, withBucket b s)
      | (.refused, b) => (false, withBucket b s)
      | (.later t, b) =>
        (acquireIn bucket withBucket deadline tries).run (Clocked.reach t (withBucket b s)) := by
  rcases hgrant : (bucket s).request deadline (Clocked.now s) with ⟨_ | _ | t, b⟩
  all_goals simp [acquireIn, Activity.run_bind, hgrant]

namespace Client

section Token

variable (e : Endpoint) (deadline : Deadline)

theorem run_acquireIn_idles (tries : Nat) (s : Session τ ν) :
    s.Idles ((Bucket.acquireIn (Session.bucket e) (Session.withBucket e) deadline tries).run s).2 := by
  -- by induction on the tries that are left, each of which may end with a wait
  induction tries generalizing s with
  | zero => exact .refl s
  | succ tries ih =>
    rw [Bucket.run_acquireIn_succ]
    rcases (s.bucket e).request deadline (Clocked.now s) with ⟨_ | _ | t, b⟩
    · exact s.idles_withBucket e b
    · exact s.idles_withBucket e b
    · exact ((s.idles_withBucket e b).trans (Session.idles_reach t _)).trans (ih _)

theorem run_acquireIn_withNode {μ : Type} (tries : Nat) (s : Session τ ν) (node : μ) :
    (Bucket.acquireIn (Session.bucket e) (Session.withBucket e) deadline tries).run
        (s.withNode node) =
      let acquired :=
        (Bucket.acquireIn (Session.bucket e) (Session.withBucket e) deadline tries).run s
      (acquired.1, acquired.2.withNode node) := by
  induction tries generalizing s with
  | zero => rfl
  | succ tries ih =>
    have hnow : Clocked.now (s.withNode node) = Clocked.now s := rfl
    simp only [Bucket.run_acquireIn_succ, Session.bucket_withNode, Session.withBucket_withNode, hnow]
    rcases (s.bucket e).request deadline (Clocked.now s) with ⟨_ | _ | t, b⟩
    · rfl
    · rfl
    · simp only [Session.reach_withNode]
      exact ih _

theorem ending_takeToken (s : Session τ ν) :
    (takeToken e deadline).ending s =
      let acquired := (Bucket.acquireIn (Session.bucket e) (Session.withBucket e) deadline
        (Bucket.tries deadline (Clocked.now s))).run s
      (if acquired.1 then .ok () else .error .cancelled, acquired.2) := by
  have hacquire : (Bucket.acquire (Session.bucket e) (Session.withBucket e) deadline).run s =
      (Bucket.acquireIn (Session.bucket e) (Session.withBucket e) deadline
        (Bucket.tries deadline (Clocked.now s))).run s := by
    rw [Bucket.acquire, Activity.run_bind]
    rfl
  rw [takeToken, Asking.ending_bind_ok (Asking.ending_lift _ s), hacquire]
  generalize (Bucket.acquireIn (Session.bucket e) (Session.withBucket e) deadline
    (Bucket.tries deadline (Clocked.now s))).run s = acquired
  obtain ⟨granted, t⟩ := acquired
  cases granted <;> rfl

/-- A token is granted, or the call is cancelled, and nothing else happens. -/
theorem ending_takeToken_cases (s : Session τ ν) : ∃ result t,
    (takeToken e deadline).ending s = (result, t) ∧ s.Idles t ∧
      (result = .ok () ∨ result = .error .cancelled) := by
  refine ⟨_, _, ending_takeToken e deadline s, run_acquireIn_idles e deadline _ s, ?_⟩
  split
  · exact .inl rfl
  · exact .inr rfl

/-- It does not matter which node there is. -/
theorem ending_takeToken_withNode {μ : Type} {s t : Session τ ν} {result : Except NodeError Unit}
    (h : (takeToken e deadline).ending s = (result, t)) (node : μ) :
    (takeToken e deadline).ending (s.withNode node) = (result, t.withNode node) := by
  have hnow : Clocked.now (s.withNode node) = Clocked.now s := rfl
  rw [ending_takeToken] at h ⊢
  simp only [hnow, run_acquireIn_withNode]
  obtain ⟨rfl, rfl⟩ := Prod.mk.inj h
  rfl

/-- The node learns nothing of a token. -/
theorem does_takeToken (s : Session τ ν) :
    Asking.Does s (takeToken e deadline) (takeToken e deadline) fun notes result t =>
      notes = [] ∧ t.cache = s.cache ∧ (result = .ok () ∨ result = .error .cancelled) := by
  obtain ⟨result, t, hend, hidle, hresult⟩ := ending_takeToken_cases e deadline s
  refine Asking.does_quiet result t hend (fun before => ?_) ⟨rfl, hidle.cache, hresult⟩
  rw [← hidle.withNotes before]
  exact ending_takeToken_withNode e deadline hend (s.node, before)

end Token

/-- The call goes on to the node: a token is granted, and by then the deadline has not passed. -/
def Admitted (e : Endpoint) (deadline : Deadline) (s : Session τ ν) : Prop :=
  ∃ t, (takeToken e deadline).ending s = (.ok (), t) ∧ ∀ d, deadline = some d → t.now < d

/-- An attempt once a token is granted: the exchange, the wait for its end, and the record of it. -/
theorem ending_attempt (c : Client ν) {e : Endpoint} (label : String) (r : Request)
    {deadline : Deadline} {s t : Session τ ν} (h : (takeToken e deadline).ending s = (.ok (), t)) :
    (c.attempt e label r deadline).ending s =
      match Clock.remaining? r.timeout deadline t.now with
      | none => (.error .cancelled, t)
      | some timeout =>
        let (exchange, node) := c.transport { r with timeout } t.now t.node
        let outcome := exchange.outcome.bind checked
        (.ok outcome, (Clocked.reach exchange.finished { t with node }).record
          (.request label (statusOf outcome))) := by
  rw [attempt, Asking.ending_bind_ok h, Asking.ending_bind_ok (Asking.ending_get t)]
  cases Clock.remaining? r.timeout deadline t.now with
  | none => rfl
  | some timeout => rfl

omit [Quantity τ] in
theorem remaining?_eq_none_iff {span : Span} {deadline : Deadline} {now : Instant} :
    Clock.remaining? span deadline now = none ↔ ∃ d, deadline = some d ∧ d ≤ now := by
  cases deadline with
  | none => simp [Clock.remaining?]
  | some d => simp [Clock.remaining?]

theorem not_admitted_of_past {e : Endpoint} {deadline : Deadline} {s t : Session τ ν} {d : Instant}
    (h : (takeToken e deadline).ending s = (.ok (), t)) (hd : deadline = some d) (hpast : d ≤ t.now) :
    ¬Admitted e deadline s := by
  rintro ⟨u, hu, hbefore⟩
  obtain rfl : t = u := (Prod.mk.inj (h.symm.trans hu)).2
  exact absurd (hbefore d hd) (Nat.not_lt.2 hpast)

/-! ## Exchanges -/

omit [Quantity τ] in
theorem replied_iff {n : Note} {reply : Reply} :
    n.exchange.outcome.bind checked = .ok reply ↔ n.Replied reply := by
  unfold Note.Replied
  cases n.exchange.outcome with
  | error e => simp [Except.bind]
  | ok r =>
    simp only [Except.bind, checked, Except.ok.injEq]
    split
    · exact ⟨fun h => by cases h; exact ⟨rfl, ‹_›⟩, fun h => by rw [h.1]⟩
    · refine ⟨nofun, ?_⟩
      rintro ⟨rfl, hstatus⟩
      exact absurd hstatus ‹_›

/-- The exchanges of a request: nothing else is asked, nothing is cached, and there is none only if the
call is not admitted. -/
structure Asked (e : Endpoint) (r : Request) (deadline : Deadline) (s : Session τ ν)
    (notes : List Note) (t : Session τ ν) : Prop where
  cache : t.cache = s.cache
  requests : ∀ n ∈ notes, n.request.path = r.path ∧ n.request.query = r.query
  eq_nil_iff : notes = [] ↔ ¬Admitted e deadline s

/-- A result is read from the last reply; without an exchange the call was cancelled. -/
structure Gives (read : Reply → Except NodeError α) (notes : List Note)
    (result : Except NodeError α) : Prop where
  cancelled : notes = [] → result = .error .cancelled
  last : ∀ a, result = .ok a →
    ∃ n reply, notes.getLast? = some n ∧ n.Replied reply ∧ read reply = .ok a

section Asked

variable {e : Endpoint} {r : Request} {deadline : Deadline} {s t u : Session τ ν}
  {notes others : List Note}

/-- More exchanges for the same request. -/
theorem Asked.append (h : Asked e r deadline s notes t) (hne : notes ≠ [])
    (hothers : ∀ n ∈ others, n.request.path = r.path ∧ n.request.query = r.query)
    (hcache : u.cache = t.cache) : Asked e r deadline s (notes ++ others) u where
  cache := hcache.trans h.cache
  requests n hn := (List.mem_append.1 hn).elim (h.requests n) (hothers n)
  eq_nil_iff := by
    refine ⟨fun hnil => absurd (List.append_eq_nil_iff.1 hnil).1 hne, fun hrefused => ?_⟩
    exact absurd (h.eq_nil_iff.2 hrefused) hne

/-- What the last exchange gives, whatever was asked before. -/
theorem Gives.after {read : Reply → Except NodeError α} {result : Except NodeError α}
    (h : Gives read others result) (hne : notes ≠ []) : Gives read (notes ++ others) result where
  cancelled hnil := absurd (List.append_eq_nil_iff.1 hnil).1 hne
  last a ha := by
    obtain ⟨n, reply, hlast, hreplied, hread⟩ := h.last a ha
    refine ⟨n, reply, ?_, hreplied, hread⟩
    rw [List.getLast?_append, hlast, Option.some_or]

theorem gives_error {read : Reply → Except NodeError α} {error : NodeError} (hne : notes ≠ []) :
    Gives read notes (.error error) where
  cancelled hnil := absurd hnil hne
  last := nofun

/-- An attempt makes one exchange, or none because the call is cancelled before. -/
structure Attempted (e : Endpoint) (r : Request) (deadline : Deadline) (s : Session τ ν)
    (notes : List Note) (result : Except NodeError (Except NodeError Reply)) (t : Session τ ν) :
    Prop where
  asked : Asked e r deadline s notes t
  outcome : notes = [] ∧ result = .error .cancelled ∨
    ∃ n, notes = [n] ∧ result = .ok (n.exchange.outcome.bind checked)

theorem attempted_none (hcache : t.cache = s.cache) (h : ¬Admitted e deadline s) :
    Attempted e r deadline s [] (.error .cancelled) t :=
  ⟨⟨hcache, by simp, by simpa using h⟩, .inl ⟨rfl, rfl⟩⟩

theorem attempted_one {n : Note} (hcache : t.cache = s.cache) (h : Admitted e deadline s)
    (hpath : n.request.path = r.path) (hquery : n.request.query = r.query) :
    Attempted e r deadline s [n] (.ok (n.exchange.outcome.bind checked)) t :=
  ⟨⟨hcache, by simp [hpath, hquery], by simpa using h⟩, .inr ⟨n, rfl, rfl⟩⟩

theorem Attempted.gives_error {error : NodeError}
    (h : Attempted e r deadline s notes (.error error) t) :
    Gives Except.ok notes (.error error : Except NodeError Reply) := by
  obtain ⟨-, herror⟩ | ⟨n, -, herror⟩ := h.outcome
  · cases herror
    exact ⟨fun _ => rfl, nofun⟩
  · cases herror

end Asked

/-- **An attempt is one exchange**, or none because the call is cancelled before. -/
theorem does_attempt (c : Client ν) (e : Endpoint) (label : String) (r : Request)
    (deadline : Deadline) (s : Session τ ν) :
    Asking.Does s (c.attempt e label r deadline) (c.noting.attempt e label r deadline)
      fun notes result t => Attempted e r deadline s notes result t := by
  obtain ⟨notes, result, t, hp, rfl, hcache, rfl | rfl⟩ := does_takeToken e deadline s
  · have hnoted (before : List Note) : (takeToken e deadline).ending (s.withNotes before) =
        (.ok (), t.withNotes before) := by
      rw [hp.noted before, List.append_nil]
    have hplain := c.ending_attempt label r hp.ending_eq
    have hbeside := fun before => c.noting.ending_attempt label r (hnoted before)
    cases hleft : Clock.remaining? r.timeout deadline t.now with
    | none =>
      -- the token came too late
      obtain ⟨d, hd, hpast⟩ := remaining?_eq_none_iff.1 hleft
      have hrefused : ¬Admitted e deadline s := not_admitted_of_past hp.ending_eq hd hpast
      rw [hleft] at hplain
      refine Asking.does_quiet _ _ hplain (fun before => ?_) (attempted_none hcache hrefused)
      have hnow : (t.withNotes before).now = t.now := rfl
      rw [hbeside, hnow, hleft]
    | some timeout =>
      have hadmitted : Admitted e deadline s := by
        refine ⟨t, hp.ending_eq, fun d hd => Nat.lt_of_not_le fun hpast => ?_⟩
        have hnone : Clock.remaining? r.timeout deadline t.now = none :=
          remaining?_eq_none_iff.2 ⟨d, hd, hpast⟩
        rw [hleft] at hnone
        cases hnone
      rcases htransport : c.transport { r with timeout } t.now t.node with ⟨exchange, node⟩
      simp only [hleft, htransport] at hplain
      refine ⟨[⟨{ r with timeout }, exchange⟩], _, _, ⟨hplain, fun before => ?_⟩,
        attempted_one ?_ hadmitted rfl rfl⟩
      · have hbesides : c.noting.transport { r with timeout } t.now (t.withNotes before).node =
            (exchange, node, before ++ [⟨{ r with timeout }, exchange⟩]) := by
          simp only [noting, Session.withNotes, htransport]
        have hnow : (t.withNotes before).now = t.now := rfl
        simp only [hbeside, hnow, hleft, hbesides]
        have hreach := Session.reach_withNotes { t with node } exchange.finished
          (before ++ [⟨{ r with timeout }, exchange⟩])
        exact congrArg (fun u => (_, Session.record u _)) hreach
      · exact (Session.idles_reach exchange.finished { t with node }).cache.trans hcache
  · -- no token at all
    have hrefused : ¬Admitted e deadline s := by
      rintro ⟨u, hu, -⟩
      rw [hp.ending_eq] at hu
      cases hu
    refine Asking.does_quiet _ _ (Asking.ending_bind_error hp.ending_eq) (fun before => ?_)
      (attempted_none hcache hrefused)
    have hnoted := hp.noted before
    rw [List.append_nil] at hnoted
    exact Asking.ending_bind_error hnoted

/-! ## A request with its repetitions -/

omit [Quantity τ] in
theorem ending_pause (wait : Span) (deadline : Deadline) (s : Session τ ν) :
    (pause wait deadline).ending s =
      if Clock.isPast deadline (s.now + wait) then (.error .cancelled, s)
      else (.ok (), Clocked.reach (Clock.after s.now wait) s) := by
  rw [pause, Asking.ending_bind_ok (Asking.ending_get s)]
  split <;> rfl

omit [Quantity τ] in
theorem does_pause (wait : Span) (deadline : Deadline) (s : Session τ ν) :
    Asking.Does s (pause wait deadline) (pause wait deadline) fun notes _ t =>
      notes = [] ∧ t.cache = s.cache := by
  by_cases hpast : Clock.isPast deadline (s.now + wait) = true
  · refine Asking.does_quiet _ _ ((ending_pause wait deadline s).trans (if_pos hpast))
      (fun before => ?_) ⟨rfl, rfl⟩
    exact (ending_pause wait deadline _).trans (if_pos hpast)
  · refine Asking.does_quiet _ _ ((ending_pause wait deadline s).trans (if_neg hpast))
      (fun before => ?_) ⟨rfl, (Session.idles_reach _ _).cache⟩
    rw [← Session.reach_withNotes]
    exact (ending_pause wait deadline _).trans (if_neg hpast)

theorem does_sendAfter (c : Client ν) (e : Endpoint) (label : String) (r : Request)
    (deadline : Deadline) (made left : Nat) (s : Session τ ν) :
    Asking.Does s (c.sendAfter e label r deadline made left)
      (c.noting.sendAfter e label r deadline made left) fun notes result t =>
        Asked e r deadline s notes t ∧ Gives .ok notes result := by
  -- by induction on the attempts that are left; every one after the first follows an exchange
  induction left generalizing made s with
  | zero =>
    refine (c.does_attempt e label r deadline s).bind (fun notes outcome t hattempt => ?_)
      fun notes error t hattempt => ⟨hattempt.asked, hattempt.gives_error⟩
    refine Asking.does_liftExcept ?_
    obtain ⟨hasked, ⟨-, hok⟩ | ⟨n, rfl, hok⟩⟩ := hattempt
    · cases hok
    · cases hok
      rw [List.append_nil]
      exact ⟨hasked, nofun, fun reply hreply => ⟨n, reply, rfl, replied_iff.1 hreply, rfl⟩⟩
  | succ left ih =>
    refine (c.does_attempt e label r deadline s).bind (fun notes outcome t hattempt => ?_)
      fun notes error t hattempt => ⟨hattempt.asked, hattempt.gives_error⟩
    obtain ⟨hasked, ⟨-, hok⟩ | ⟨n, rfl, hok⟩⟩ := hattempt
    · cases hok
    · have houtcome := Except.ok.inj hok
      have hne : [n] ≠ [] := List.cons_ne_nil _ _
      cases outcome with
      | ok reply =>
        refine Asking.does_pure ⟨hasked, nofun, fun a ha => ?_⟩
        obtain rfl := Except.ok.inj ha
        exact ⟨n, reply, rfl, replied_iff.1 houtcome.symm, rfl⟩
      | error error =>
        by_cases htransient : error.isTransient = true
        · -- the failure may pass: a pause, and the other attempts
          simp only [htransient, Bool.not_true, Bool.false_eq_true, if_false]
          refine (does_pause _ deadline t).bind (fun _ _ u hpause => ?_) fun _ error u hpause => ?_
          · refine (ih (made + 1) u).imp fun others result v hrest => ?_
            obtain ⟨rfl, hcache⟩ := hpause
            exact ⟨hasked.append hne hrest.1.requests (hrest.1.cache.trans hcache),
              hrest.2.after hne⟩
          · obtain ⟨rfl, hcache⟩ := hpause
            exact ⟨hasked.append hne (by simp) hcache, gives_error (by simp)⟩
        · simp only [htransient, Bool.not_false, if_true]
          exact Asking.does_throw ⟨hasked, gives_error hne⟩

/-- **A request is sent** until a reply is given, and not at all only if the call is cancelled. -/
theorem does_send (c : Client ν) (e : Endpoint) (label : String) (r : Request) (deadline : Deadline)
    (s : Session τ ν) :
    Asking.Does s (c.send e label r deadline) (c.noting.send e label r deadline)
      fun notes result t => Asked e r deadline s notes t ∧ Gives .ok notes result :=
  c.does_sendAfter e label r deadline 0 _ s

omit [Quantity τ] in
/-- The words for a body that is no answer matter to no body that is one. -/
theorem result_reason {read : Json → Option α} {body : String} (reason : String) {a : α} :
    Answer.result read body reason = .ok a ↔ Answer.result read body = .ok a := by
  unfold Answer.result Answer.value
  cases (Json.parse? body).bind (Answer.Wrapped.shape read).read with
  | none => exact iff_of_false nofun nofun
  | some w => exact Iff.rfl

/-- **What a question gives** is read from the last reply. -/
theorem does_askChain (c : Client ν) (read : Json → Option α) (r : Request) (deadline : Deadline)
    (s : Session τ ν) :
    Asking.Does s (c.askChain read r deadline) (c.noting.askChain read r deadline)
      fun notes result t => Asked .chain r deadline s notes t ∧
        Gives (fun reply => Answer.result read reply.body) notes result := by
  refine (c.does_send .chain r.path r deadline s).bind (fun notes reply t hsend => ?_)
    fun notes error t hsend => ⟨hsend.1, ?_⟩
  · refine Asking.does_liftExcept ?_
    rw [List.append_nil]
    obtain ⟨n, last, hlast, hreplied, hread⟩ := hsend.2.last reply rfl
    obtain rfl := Except.ok.inj hread
    refine ⟨hsend.1, fun hnil => ?_,
      fun a ha => ⟨n, last, hlast, hreplied, (result_reason _).1 ha⟩⟩
    cases hsend.2.cancelled hnil
  · refine ⟨fun hnil => ?_, nofun⟩
    cases hsend.2.cancelled hnil
    rfl

end Client

end ChainIndex
