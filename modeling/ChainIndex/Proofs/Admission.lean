import ChainIndex.Proofs.Exchanges
import ChainIndex.Proofs.RateLimit

/-!
# A bucket that refills lets every request through

While a request waits for a token nothing happens but that time passes (`Session.Idles`). The number of its
tries is used up by time only, however tokens are counted (`Client.acquireIn_more`), and up to a deadline
there are tries enough (`Client.acquireIn_tries`).

Without a deadline it waits as long as it takes. A timer may go off before there is a token, if the token
takes longer than any timer runs; but then what comes back meanwhile is there, so the number of waits is
bounded, and far below the number that is allowed (`Client.acquireIn_granted`). For this, tokens are counted
in exact fractions.

* `Client.takeToken_flows`: **a request without a deadline gets its token**, and the next one will, too.
* `Client.Grants`: this is all that is needed of the arithmetic; `Client.grants_any` does without it.
-/

namespace ChainIndex

open Bucket

variable {τ ν : Type}

/-! ## Waiting -/

namespace Session

theorem clocked_now (s : Session τ ν) : Clocked.now s = s.now :=
  rfl

theorem now_reach (t : Instant) (s : Session τ ν) : (Clocked.reach t s).now = max s.now t :=
  Clocked.now_reach t s

theorem bucket_reach (s : Session τ ν) (e : Endpoint) (t : Instant) :
    (Clocked.reach t s).bucket e = s.bucket e := by
  unfold Clocked.reach
  split
  · cases e <;> rfl
  · rfl

theorem bucket_withBucket (e : Endpoint) (b : Bucket τ) (s : Session τ ν) :
    (s.withBucket e b).bucket e = b := by
  cases e <;> rfl

theorem now_withBucket (e : Endpoint) (b : Bucket τ) (s : Session τ ν) :
    (s.withBucket e b).now = s.now := by
  cases e <;> rfl

end Session

/-! ## Tries are not used up -/

section Tries

variable [Quantity τ]

/-- A wait for a token takes a millisecond at least, and ends less than a millisecond after the deadline. -/
theorem Bucket.request_later {b b' : Bucket τ} {deadline : Deadline} {now t : Instant}
    (h : b.request deadline now = (.later t, b')) :
    now + Clock.millisecond ≤ t ∧ ∀ d ∈ deadline, t < d + Clock.millisecond := by
  unfold Bucket.request at h
  split at h
  · cases h
  · split at h
    · cases h
    · next wait _ _ =>
      dsimp only at h
      split_ifs at h with hpast
      · cases h
      obtain rfl := Grant.later.inj (Prod.mk.inj h).1
      have hwait : Clock.millisecond ≤ max wait Clock.millisecond := le_max_right _ _
      generalize max wait Clock.millisecond = wait at hpast hwait
      have hlongest : Clock.millisecond ≤ Clock.longest := by decide
      refine ⟨?_, ?_⟩
      · have hafter := Clock.min_le_after now wait
        exact (Nat.add_le_add_left (Nat.le_min.2 ⟨hwait, hlongest⟩) now).trans hafter
      · rintro d hd
        obtain rfl : deadline = some d := hd
        have hbefore : now + wait ≤ d := by simpa [Clock.isPast] using hpast
        exact (Clock.after_lt now wait).trans_le (Nat.add_le_add_right hbefore _)

variable (e : Endpoint)

/-- **Tries are used up by time only**: before so many milliseconds have passed, more of them change
nothing. -/
theorem Client.acquireIn_more (deadline : Deadline) (tries more : Nat) (s : Session τ ν)
    (h : ((acquireIn (Session.bucket e) (Session.withBucket e) deadline tries).run s).2.now <
      s.now + tries * Clock.millisecond) :
    (acquireIn (Session.bucket e) (Session.withBucket e) deadline (tries + more)).run s =
      (acquireIn (Session.bucket e) (Session.withBucket e) deadline tries).run s := by
  induction tries generalizing s with
  | zero =>
    rw [Nat.zero_mul] at h
    exact absurd h (Nat.lt_irrefl _)
  | succ tries ih =>
    rw [run_acquireIn_succ, s.clocked_now] at h
    rw [Nat.add_right_comm, run_acquireIn_succ, run_acquireIn_succ, s.clocked_now]
    rcases hgrant : (s.bucket e).request deadline s.now with ⟨_ | _ | t, b⟩
    · rfl
    · rfl
    · rw [hgrant] at h
      obtain ⟨hlater, -⟩ := request_later hgrant
      refine ih _ (h.trans_le ?_)
      rw [Session.now_reach, Session.now_withBucket, Nat.succ_mul, Nat.add_comm (tries * _), ← Nat.add_assoc]
      exact Nat.add_le_add_right (hlater.trans (le_max_right _ _)) _

/-- The last wait ends less than a millisecond after the deadline. -/
theorem Client.now_acquireIn_lt (d : Instant) (tries : Nat) (s : Session τ ν) :
    ((acquireIn (Session.bucket e) (Session.withBucket e) (some d) tries).run s).2.now <
      max (s.now + 1) (d + Clock.millisecond) := by
  induction tries generalizing s with
  | zero => exact lt_max_of_lt_left (Nat.lt_succ_self _)
  | succ tries ih =>
    rw [run_acquireIn_succ, s.clocked_now]
    rcases hgrant : (s.bucket e).request (some d) s.now with ⟨_ | _ | t, b⟩
    · exact lt_max_of_lt_left ((s.now_withBucket e b).trans_lt (Nat.lt_succ_self _))
    · exact lt_max_of_lt_left ((s.now_withBucket e b).trans_lt (Nat.lt_succ_self _))
    · obtain ⟨-, hbefore⟩ := request_later hgrant
      have hend := hbefore d rfl
      refine (ih _).trans_le (max_le (Nat.succ_le_of_lt ?_) (le_max_right _ _))
      rw [Session.now_reach, Session.now_withBucket]
      exact max_lt (lt_max_of_lt_left (Nat.lt_succ_self _)) (lt_max_of_lt_right hend)

/-- **The tries up to a deadline are never used up**: with more of them, the same happens. -/
theorem Client.acquireIn_tries (d : Instant) (more : Nat) (s : Session τ ν) :
    (acquireIn (Session.bucket e) (Session.withBucket e) (some d) (tries (some d) s.now + more)).run s =
      (acquireIn (Session.bucket e) (Session.withBucket e) (some d) (tries (some d) s.now)).run s := by
  have htime (now d : ℕ) : max (now + 1) (d + 1000000) ≤ now + ((d - now) / 1000000 + 2) * 1000000 := by
    omega
  exact acquireIn_more e (some d) _ more s ((now_acquireIn_lt e d _ s).trans_le (htime s.now d))

end Tries

/-! ## Tokens that come back -/

namespace Bucket

/-- A bucket that has room for a token, and where one comes back within the longest span that a wait can
have, `2 ^ 64` seconds. -/
structure Flows (b : Bucket ℚ) (now : Instant) : Prop where
  sound : b.Sound
  seen_le : b.seen ≤ now
  room : 1 ≤ b.rate.capacity
  refill : 1 ≤ b.rate.refill * UInt64.size

variable {b : Bucket ℚ} {now : Instant}

theorem request_enough (deadline : Deadline) (henough : 1 ≤ (b.refilled now).tokens) :
    (b.request deadline now).1 = .granted := by
  have hone : (Quantity.ofNat 1 : ℚ) = 1 := Nat.cast_one
  rw [Bucket.request, hone, tryTake_eq, if_pos henough]

namespace Flows

theorem later {t : Instant} (h : b.Flows now) (hle : now ≤ t) : b.Flows t :=
  { h with seen_le := h.seen_le.trans hle }

/-- As the bucket of a client is at first. -/
theorem full_perSecond (n : Nat) (now : Instant) : (full (.perSecond n) now).Flows now := by
  have hone : (1 : ℚ) ≤ ((max n 1 : ℕ) : ℚ) := by exact_mod_cast le_max_right n 1
  have hsize : (1 : ℚ) ≤ (UInt64.size : ℚ) := by norm_num [UInt64.size]
  exact {
    sound := sound_full (zero_le_one.trans hone) (zero_le_one.trans hone) now
    seen_le := le_rfl
    room := hone
    refill := one_le_mul_of_one_le_of_one_le hone hsize }

theorem refill_pos (h : b.Flows now) : 0 < b.rate.refill := by
  by_contra hnot
  have hnone := mul_nonpos_of_nonpos_of_nonneg (not_lt.1 hnot) (Nat.cast_nonneg (α := ℚ) UInt64.size)
  linarith [h.refill]

theorem refilled (h : b.Flows now) : (b.refilled now).Flows now where
  sound := h.sound.refilled now
  seen_le := max_le h.seen_le le_rfl
  room := h.room
  refill := h.refill

theorem request (h : b.Flows now) (deadline : Deadline) : (b.request deadline now).2.Flows now := by
  obtain ⟨-, henough, hbucket⟩ | ⟨-, hbucket⟩ := h.sound.request_spec deadline now
  · rw [hbucket]
    exact { h.refilled with sound := h.refilled.sound.without zero_le_one henough }
  · rw [hbucket]
    exact h.refilled

/-- Without a deadline, a request that gets no token waits until one is back. -/
theorem request_none (h : b.Flows now) (hless : (b.refilled now).tokens < 1) : ∃ wait,
    b.request none now = (.later (Clock.after now wait), b.refilled now) ∧
      1 - (b.refilled now).tokens ≤ secs wait * b.rate.refill := by
  have hrefill := h.refill_pos
  have hone : (Quantity.ofNat 1 : ℚ) = 1 := Nat.cast_one
  have htwice := h.sound.refilled_refilled (le_refl now)
  have hrate : (b.refilled now).rate = b.rate := rfl
  generalize hmissing : (1 - (b.refilled now).tokens) / b.rate.refill = missing
  have hwait : (b.refilled now).wait 1 now = (some ⌈missing * 1000000000⌉₊, b.refilled now) := by
    rw [wait, delay_eq, htwice, if_neg (not_le.2 hless), hrate, if_neg (not_le.2 hrefill), hmissing]
    rfl
  refine ⟨max ⌈missing * 1000000000⌉₊ Clock.millisecond, ?_, ?_⟩
  · rw [Bucket.request, hone, tryTake_eq, if_neg (not_le.2 hless)]
    simp only [hwait]
    rfl
  · have hlong : missing ≤ secs (max ⌈missing * 1000000000⌉₊ Clock.millisecond) := by
      have hceil := Nat.le_ceil (missing * 1000000000)
      have hmax : (⌈missing * 1000000000⌉₊ : ℚ) ≤
          (max ⌈missing * 1000000000⌉₊ Clock.millisecond : ℕ) :=
        Nat.cast_le.2 (le_max_left _ _)
      rw [secs, le_div_iff₀ (by norm_num)]
      exact hceil.trans hmax
    rw [div_eq_iff hrefill.ne'] at hmissing
    rw [hmissing]
    exact mul_le_mul_of_nonneg_right hlong hrefill.le

/-- What is missing for a token after a wait that may end too early. -/
theorem missing_later (h : b.Flows now) {wait tries : ℕ} {t : Instant}
    (hafter : now + min wait Clock.longest ≤ t)
    (hwait : 1 - (b.refilled now).tokens ≤ secs wait * b.rate.refill)
    (hmissing : 1 - (b.refilled now).tokens ≤ secs (Clock.longest * (tries + 1)) * b.rate.refill) :
    1 - ((b.refilled now).refilled t).tokens ≤ secs (Clock.longest * tries) * b.rate.refill := by
  have hgain : 0 ≤ secs (Clock.longest * tries) * b.rate.refill := h.sound.gain _
  have hseen : (b.refilled now).seen = now := max_eq_right h.seen_le
  have hrate : (b.refilled now).rate = b.rate := rfl
  rw [refilled_tokens, hseen, hrate]
  generalize (b.refilled now).tokens = tokens at hwait hmissing ⊢
  -- what comes back until then
  have hback : secs (min wait Clock.longest) * b.rate.refill ≤ secs (t - now) * b.rate.refill := by
    refine mul_le_mul_of_nonneg_right (secs_mono ?_) h.sound.refill
    exact Nat.le_sub_of_add_le' hafter
  rcases le_total b.rate.capacity (tokens + secs (t - now) * b.rate.refill) with hfull | hless
  · rw [min_eq_right hfull]
    linarith [h.room]
  · rw [min_eq_left hless]
    rcases Nat.le_total wait Clock.longest with hshort | hlong
    · rw [Nat.min_eq_left hshort] at hback
      linarith
    · rw [Nat.min_eq_right hlong] at hback
      rw [Nat.mul_succ, secs_add, add_mul] at hmissing
      linarith

end Flows

end Bucket

/-! ## A token for a request -/

namespace Client

variable (e : Endpoint)

/-- The bucket of an endpoint, as it is in a session. -/
def Flows (s : Session ℚ ν) : Prop :=
  (s.bucket e).Flows s.now

variable {e} {s : Session ℚ ν}

theorem Flows.withBucket (h : Flows e s) (deadline : Deadline) :
    Flows e (s.withBucket e ((s.bucket e).request deadline s.now).2) := by
  rw [Flows, s.bucket_withBucket, s.now_withBucket]
  exact h.request deadline

theorem Flows.later {t : Session ℚ ν} (h : Flows e s) (hbucket : t.bucket e = s.bucket e)
    (hle : s.now ≤ t.now) : Flows e t := by
  rw [Flows, hbucket]
  exact Bucket.Flows.later h hle

theorem Flows.reach (h : Flows e s) (t : Instant) : Flows e (Clocked.reach t s) :=
  h.later (s.bucket_reach e t) (Session.idles_reach t s).now_le

theorem run_acquireIn_flows (deadline : Deadline) (tries : Nat) (h : Flows e s) :
    Flows e ((acquireIn (Session.bucket e) (Session.withBucket e) deadline tries).run s).2 := by
  induction tries generalizing s with
  | zero => exact h
  | succ tries ih =>
    have hnext := h.withBucket deadline
    rw [run_acquireIn_succ, s.clocked_now]
    rcases hgrant : (s.bucket e).request deadline s.now with ⟨_ | _ | t, b⟩
    all_goals rw [hgrant] at hnext
    · exact hnext
    · exact hnext
    · exact ih (hnext.reach t)

theorem acquireIn_enough (henough : 1 ≤ ((s.bucket e).refilled s.now).tokens) (tries : Nat) :
    ((acquireIn (Session.bucket e) (Session.withBucket e) none (tries + 1)).run s).1 = true := by
  have hgrant := Bucket.request_enough none henough
  rw [run_acquireIn_succ, s.clocked_now]
  rcases hrequest : (s.bucket e).request none s.now with ⟨grant, b⟩
  rw [hrequest] at hgrant
  cases hgrant
  rfl

/-- **Every request gets a token in the end**: with each wait the longest that a timer runs comes back. -/
theorem acquireIn_granted (tries : Nat) (h : Flows e s)
    (hmissing : 1 - ((s.bucket e).refilled s.now).tokens ≤
      secs (Clock.longest * tries) * (s.bucket e).rate.refill) :
    ((acquireIn (Session.bucket e) (Session.withBucket e) none (tries + 1)).run s).1 = true := by
  induction tries generalizing s with
  | zero =>
    have henough : 1 ≤ ((s.bucket e).refilled s.now).tokens := by
      simp only [Nat.mul_zero, secs, Nat.cast_zero, zero_div, zero_mul] at hmissing
      linarith
    exact acquireIn_enough henough 0
  | succ tries ih =>
    rcases le_or_gt 1 ((s.bucket e).refilled s.now).tokens with henough | hless
    · exact acquireIn_enough henough _
    · -- the wait may be cut short, but what came back by then is there
      obtain ⟨wait, hrequest, hwait⟩ := Bucket.Flows.request_none h hless
      have hnext := (h.withBucket none).reach (Clock.after s.now wait)
      rw [run_acquireIn_succ, s.clocked_now]
      rw [hrequest] at hnext ⊢
      refine ih hnext ?_
      rw [Session.bucket_reach, Session.bucket_withBucket, Session.now_reach, Session.now_withBucket]
      exact Bucket.Flows.missing_later h ((Clock.min_le_after _ _).trans (le_max_right _ _)) hwait hmissing

/-- **A request for a token leaves the bucket flowing**, and without a deadline it gets the token. -/
theorem takeToken_flows (deadline : Deadline) (h : Flows e s) : ∃ result t,
    (takeToken e deadline).ending s = (result, t) ∧ s.Idles t ∧ Flows e t ∧
      (result = .ok () ∨ result = .error .cancelled ∧ deadline.isSome) := by
  refine ⟨_, _, ending_takeToken e deadline s, run_acquireIn_idles e deadline _ s,
    run_acquireIn_flows deadline _ h, ?_⟩
  cases deadline with
  | some d => split <;> simp
  | none =>
    have hmissing : 1 - ((s.bucket e).refilled s.now).tokens ≤
        secs (Clock.longest * (UInt64.size - 1)) * (s.bucket e).rate.refill := by
      have hnonneg := (h.sound.refilled s.now).nonneg
      have hlong : (UInt64.size : ℚ) ≤ secs (Clock.longest * (UInt64.size - 1)) := by
        norm_num [secs, Clock.longest, Clock.ofSeconds, UInt64.size]
      have hback := mul_le_mul_of_nonneg_right hlong h.sound.refill
      linarith [h.refill]
    exact .inl (if_pos (acquireIn_granted _ h hmissing))

/-! ## What the arithmetic is needed for -/

/-- Sessions in which a request is refused its token only for a reason: they stay what they are while a
token is waited for and while time passes, and a deadline is reason enough. -/
structure Grants [Quantity τ] (e : Endpoint) (deadline : Deadline) (I : Session τ ν → Prop)
    (reason : Prop) : Prop where
  token : ∀ s, I s → ∃ result t, (takeToken e deadline).ending s = (result, t) ∧ s.Idles t ∧ I t ∧
    (result = .ok () ∨ result = .error .cancelled ∧ reason)
  later : ∀ s t, I s → t.bucket e = s.bucket e → s.now ≤ t.now → I t
  late : deadline.isSome → reason

/-- However tokens are counted, a request gets its token or is refused it. -/
theorem grants_any [Quantity τ] (e : Endpoint) (deadline : Deadline) :
    Grants e deadline (fun _ : Session τ ν => True) True where
  token s _ := by
    obtain ⟨result, t, hending, hidle, hresult⟩ := ending_takeToken_cases e deadline s
    exact ⟨result, t, hending, hidle, trivial, hresult.imp_right fun h => ⟨h, trivial⟩⟩
  later _ _ _ _ _ := trivial
  late _ := trivial

/-- Where tokens come back, only a deadline is in the way. -/
theorem grants_flows (e : Endpoint) (deadline : Deadline) :
    Grants e deadline (Flows e : Session ℚ ν → Prop) deadline.isSome where
  token _ h := takeToken_flows deadline h
  later _ _ h := h.later
  late h := h

namespace Grants

variable [Quantity τ] {deadline : Deadline} {I : Session τ ν → Prop} {reason : Prop}
  {s : Session τ ν}

theorem reach (hg : Grants e deadline I reason) (h : I s) (t : Instant) : I (Clocked.reach t s) :=
  hg.later s _ h (s.bucket_reach e t) (Session.idles_reach t s).now_le

/-- An exchange that ends at an instant, and is recorded. -/
theorem exchanged (hg : Grants e deadline I reason) (h : I s) (node : ν) (t : Instant) (m : Metric) :
    I ((Clocked.reach t { s with node }).record m) := by
  have hsame : ({ s with node } : Session τ ν).bucket e = s.bucket e := by cases e <;> rfl
  have hreached := hg.reach (hg.later s { s with node } h hsame le_rfl) t
  exact hg.later _ _ hreached (by cases e <;> rfl) le_rfl

end Grants

end Client

end ChainIndex
