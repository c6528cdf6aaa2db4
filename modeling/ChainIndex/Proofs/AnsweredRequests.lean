import ChainIndex.Proofs.Admission

/-!
# Requests that are answered

A request that fails is sent again only if its failure may pass, so of all its exchanges only the last can
be a reply. If the node answers, there is no other: one exchange gives the answer, or the call is cancelled
for the reason that there may be (`Client.Grants`). To say both of one program, whatever is told of it in
different ways is told of the same notes and the same session (`Asking.Does.and`).

* `Client.does_askChain_transient`: every exchange but the last has a failure that may pass.
* `Client.does_askChain_answered`: **a question that the node answers takes one exchange**, and the next one
  is let through as this one was.
-/

namespace ChainIndex

variable {τ ν α β : Type}

namespace Note

/-- The exchange failed, and may go well if it is repeated. -/
def Transient (n : Note) : Prop :=
  ∃ error, n.exchange.outcome.bind Client.checked = .error error ∧ error.isTransient = true

theorem Transient.not_replied {n : Note} (h : n.Transient) (reply : Reply) : ¬n.Replied reply := by
  intro hreplied
  obtain ⟨error, herror, -⟩ := h
  rw [Client.replied_iff.2 hreplied] at herror
  cases herror

end Note

namespace Asking

variable {s t t' : Session τ ν} {p : Asking τ ν α} {q : Asking τ (ν × List Note) α}
  {notes notes' : List Note} {result result' : Except NodeError α}

/-- A program makes the same exchanges whenever it is run, and to the same effect. -/
theorem Performs.unique (h : Performs p q s notes result t) (h' : Performs p q s notes' result' t') :
    notes = notes' ∧ result = result' ∧ t = t' := by
  obtain ⟨hresult, hsession⟩ := Prod.mk.inj (h.ending_eq.symm.trans h'.ending_eq)
  have hnoted := (Prod.mk.inj ((h.noted []).symm.trans (h'.noted []))).2
  have hnotes : [] ++ notes = [] ++ notes' := congrArg (·.node.2) hnoted
  exact ⟨by simpa using hnotes, hresult, hsession⟩

variable {P P' : List Note → Except NodeError α → Session τ ν → Prop}

theorem Does.and (h : Does s p q P) (h' : Does s p q P') :
    Does s p q fun notes result t => P notes result t ∧ P' notes result t := by
  obtain ⟨notes, result, t, hp, hP⟩ := h
  obtain ⟨notes', result', t', hp', hP'⟩ := h'
  obtain ⟨rfl, rfl, rfl⟩ := hp.unique hp'
  exact ⟨notes, result, t, hp, hP, hP'⟩

end Asking

namespace Client

variable [Quantity τ]

/-! ## Requests that are repeated -/

/-- An attempt is not made after another exchange of its own. -/
theorem Attempted.dropLast_eq_nil {e : Endpoint} {r : Request} {deadline : Deadline} {s t : Session τ ν}
    {notes : List Note} {result : Except NodeError (Except NodeError Reply)}
    (h : Attempted e r deadline s notes result t) : notes.dropLast = [] := by
  obtain ⟨rfl, -⟩ | ⟨n, rfl, -⟩ := h.outcome
  · rfl
  · rfl

/-- **A request is sent again only after a failure that may pass.** -/
theorem does_sendAfter_transient (c : Client ν) (e : Endpoint) (label : String) (r : Request)
    (deadline : Deadline) (made left : Nat) (s : Session τ ν) :
    Asking.Does s (c.sendAfter e label r deadline made left)
      (c.noting.sendAfter e label r deadline made left) fun notes _ _ =>
        ∀ n ∈ notes.dropLast, n.Transient := by
  -- by induction on the attempts that are left
  induction left generalizing made s with
  | zero =>
    refine (c.does_attempt e label r deadline s).bind (fun notes outcome t hattempt => ?_)
      fun notes error t hattempt => by simp [hattempt.dropLast_eq_nil]
    refine Asking.does_liftExcept ?_
    simp [hattempt.dropLast_eq_nil]
  | succ left ih =>
    refine (c.does_attempt e label r deadline s).bind (fun notes outcome t hattempt => ?_)
      fun notes error t hattempt => by simp [hattempt.dropLast_eq_nil]
    obtain ⟨-, ⟨-, hok⟩ | ⟨n, rfl, hok⟩⟩ := hattempt
    · cases hok
    · have houtcome := Except.ok.inj hok
      cases outcome with
      | ok reply => exact Asking.does_pure (by simp)
      | error error =>
        by_cases htransient : error.isTransient = true
        · -- the failure may pass: a pause, and the other attempts
          have hfirst : n.Transient := ⟨error, houtcome.symm, htransient⟩
          simp only [htransient, Bool.not_true, Bool.false_eq_true, if_false]
          refine (does_pause _ deadline t).bind (fun _ _ u hpause => ?_) fun _ error u hpause => ?_
          · refine (ih (made + 1) u).imp fun others _ _ hothers => ?_
            obtain ⟨rfl, -⟩ := hpause
            cases others with
            | nil => simp
            | cons m others => exact List.forall_mem_cons.2 ⟨hfirst, hothers⟩
          · obtain ⟨rfl, -⟩ := hpause
            simp
        · simp only [htransient, Bool.not_false, if_true]
          exact Asking.does_throw (by simp)

/-- Every exchange of a question but the last has a failure that may pass. -/
theorem does_askChain_transient (c : Client ν) (read : Json → Option α) (r : Request)
    (deadline : Deadline) (s : Session τ ν) :
    Asking.Does s (c.askChain read r deadline) (c.noting.askChain read r deadline)
      fun notes _ _ => ∀ n ∈ notes.dropLast, n.Transient := by
  refine (c.does_sendAfter_transient .chain r.path r deadline 0 _ s).bind
    (fun notes reply t hsend => Asking.does_liftExcept ?_) fun _ _ _ hsend => hsend
  rwa [List.append_nil]

end Client

/-! ## Requests that are answered -/

namespace Client

variable {e : Endpoint} {deadline : Deadline} {I : Session τ ν → Prop} {reason : Prop} {r : Request}
  {told : String → Prop} {s : Session τ ν}

/-- Whenever this is asked for, there is an answer with such a body. -/
def Answers (c : Client ν) (r : Request) (told : String → Prop) : Prop :=
  ∀ (sent : Request) (now : Instant) (node : ν), sent.path = r.path → sent.query = r.query →
    ∃ reply, (c.transport sent now node).1.outcome = .ok reply ∧ reply.status < 400 ∧ told reply.body

/-- What becomes of a question that is answered: there is one exchange, or the call is cancelled for the
reason that there may be. The next request is treated no worse. -/
structure Answered (I : Session τ ν → Prop) (reason : Prop) (P : α → Prop) (notes : List Note)
    (result : Except NodeError α) (t : Session τ ν) : Prop where
  kept : I t
  outcome : (∃ a, notes.length = 1 ∧ result = .ok a ∧ P a) ∨
    notes = [] ∧ result = .error .cancelled ∧ reason

variable {P : α → Prop} {Q : β → Prop} {p : Asking τ ν α} {q : Asking τ (ν × List Note) α}
  {f : α → Asking τ ν β} {g : α → Asking τ (ν × List Note) β}

/-- A program goes on after its answer without another exchange. -/
theorem does_bind_answered (h : Asking.Does s p q (Answered I reason P))
    (hf : ∀ a t, P a → I t → Asking.Does t (f a) (g a) fun notes result u =>
      notes = [] ∧ I u ∧ ∃ b, result = .ok b ∧ Q b) :
    Asking.Does s (p >>= f) (q >>= g) (Answered I reason Q) := by
  refine h.bind (fun notes a t ha => ?_) fun notes error t herror => ⟨herror.kept, ?_⟩
  · obtain ⟨b, hone, hb, hP⟩ | ⟨-, hcancelled, -⟩ := ha.outcome
    · obtain rfl := Except.ok.inj hb
      refine (hf a t hP ha.kept).imp fun others result u hnext => ?_
      obtain ⟨rfl, hkept, b, hresult, hQ⟩ := hnext
      rw [List.append_nil]
      exact ⟨hkept, .inl ⟨b, hone, hresult, hQ⟩⟩
    · cases hcancelled
  · obtain ⟨_, _, hok, _⟩ | ⟨hnone, hcancelled, hreason⟩ := herror.outcome
    · cases hok
    · refine .inr ⟨hnone, ?_, hreason⟩
      rw [Except.error.inj hcancelled]

variable [Quantity τ]

theorem ending_attempt_answered {c : Client ν} (hc : c.Answers r told) (label : String)
    (hg : Grants e deadline I reason) (h : I s) : ∃ result t,
      (c.attempt e label r deadline).ending s = (result, t) ∧ I t ∧
        ((∃ reply, result = .ok (.ok reply) ∧ told reply.body) ∨
          result = .error .cancelled ∧ reason) := by
  obtain ⟨granted, t, htoken, -, hkept, rfl | ⟨rfl, hreason⟩⟩ := hg.token s h
  · have hattempt := c.ending_attempt label r htoken
    cases hleft : Clock.remaining? r.timeout deadline t.now with
    | none =>
      obtain ⟨d, hd, -⟩ := remaining?_eq_none_iff.1 hleft
      rw [hleft] at hattempt
      exact ⟨_, t, hattempt, hkept, .inr ⟨rfl, hg.late (by rw [hd]; rfl)⟩⟩
    | some timeout =>
      obtain ⟨reply, houtcome, hstatus, htold⟩ := hc { r with timeout } t.now t.node rfl rfl
      rcases htransport : c.transport { r with timeout } t.now t.node with ⟨exchange, node⟩
      rw [htransport] at houtcome
      have hchecked : exchange.outcome.bind checked = .ok reply := by
        rw [houtcome]
        exact if_pos hstatus
      simp only [hleft, htransport, hchecked] at hattempt
      exact ⟨_, _, hattempt, hg.exchanged hkept node _ _, .inl ⟨reply, rfl, htold⟩⟩
  · exact ⟨_, t, Asking.ending_bind_error htoken, hkept, .inr ⟨rfl, hreason⟩⟩

theorem does_attempt_answered {c : Client ν} (hc : c.Answers r told) (label : String)
    (hg : Grants e deadline I reason) (h : I s) :
    Asking.Does s (c.attempt e label r deadline) (c.noting.attempt e label r deadline)
      (Answered I reason fun outcome => ∃ reply, outcome = .ok reply ∧ told reply.body) := by
  obtain ⟨notes, result, t, hp, hattempt⟩ := c.does_attempt e label r deadline s
  obtain ⟨result', t', hending, hkept, houtcome⟩ := ending_attempt_answered hc label hg h
  obtain ⟨rfl, rfl⟩ := Prod.mk.inj (hp.ending_eq.symm.trans hending)
  refine ⟨notes, result, t, hp, hkept, ?_⟩
  -- the result says whether there was an exchange
  obtain ⟨reply, rfl, htold⟩ | ⟨rfl, hreason⟩ := houtcome
  · obtain ⟨-, hnone⟩ | ⟨n, rfl, -⟩ := hattempt.outcome
    · cases hnone
    · exact .inl ⟨_, rfl, rfl, reply, rfl, htold⟩
  · obtain ⟨hnone, -⟩ | ⟨n, -, hok⟩ := hattempt.outcome
    · exact .inr ⟨hnone, rfl, hreason⟩
    · cases hok

theorem does_sendAfter_answered {c : Client ν} (hc : c.Answers r told) (label : String)
    (hg : Grants e deadline I reason) (made left : Nat) (h : I s) :
    Asking.Does s (c.sendAfter e label r deadline made left)
      (c.noting.sendAfter e label r deadline made left)
      (Answered I reason fun reply => told reply.body) := by
  cases left with
  | zero =>
    refine does_bind_answered (does_attempt_answered hc label hg h) ?_
    rintro _ t ⟨reply, rfl, htold⟩ hkept
    exact Asking.does_liftExcept ⟨rfl, hkept, reply, rfl, htold⟩
  | succ left =>
    refine does_bind_answered (does_attempt_answered hc label hg h) ?_
    rintro _ t ⟨reply, rfl, htold⟩ hkept
    exact Asking.does_pure ⟨rfl, hkept, reply, rfl, htold⟩

/-- **A question that the node answers takes one exchange**, unless there is a reason to cancel the call. -/
theorem does_askChain_answered {c : Client ν} {read : Json → Option α}
    (hc : c.Answers r fun body => ∃ a, Answer.result read body = .ok a ∧ P a) 
    (hg : Grants .chain deadline I reason) (h : I s) :
    Asking.Does s (c.askChain read r deadline) (c.noting.askChain read r deadline)
      (Answered I reason P) := by
  refine does_bind_answered (does_sendAfter_answered hc r.path hg 0 _ h) ?_
  rintro reply t ⟨a, hread, hP⟩ hkept
  refine Asking.does_liftExcept ?_
  rw [(result_reason _).2 hread]
  exact ⟨rfl, hkept, a, rfl, hP⟩

end Client

end ChainIndex
