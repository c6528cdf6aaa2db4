import ChainIndex.Node.Bucket
import Mathlib.Algebra.BigOperators.Group.List.Basic
import Mathlib.Data.Rat.Floor
import Mathlib.Tactic.Linarith

/-!
# A bucket never exceeds its rate

Counted in exact fractions. Whatever is done with a bucket, it takes in what came back since it was
last looked at, and gives away some of what it then holds (`use_spec`); and taking in twice is taking in
once (`refilled_refilled`). So it does not matter who looks at it, and how often.

* `Sound.run`: a bucket holds at least nothing and at most what it has room for.
* `Sound.taken_le`: what it gives away between two instants is at most **what it holds at the first one
  and what comes back until the second one**.
* `Sound.run_idle`: uses that take nothing change nothing for those that come later.
* `rate_limited`: what follows for every sequence of uses, and how exact the delays are.
-/

namespace ChainIndex

open Bucket

/-- Exact fractions. A span ends at the first whole nanosecond that is late enough. -/
instance : Quantity ℚ where
  ofNat n := n
  add := (· + ·)
  sub := (· - ·)
  mul := (· * ·)
  div := (· / ·)
  le a b := decide (a ≤ b)
  seconds s := s / 1000000000
  span q := ⌈q * 1000000000⌉₊

namespace Bucket

/-- The seconds of a span. -/
def secs (s : Span) : ℚ :=
  s / 1000000000

theorem secs_nonneg (s : Span) : 0 ≤ secs s := by
  unfold secs
  positivity

theorem secs_add (s t : Span) : secs (s + t) = secs s + secs t := by
  unfold secs
  push_cast
  exact add_div _ _ _

theorem secs_mono {s t : Span} (h : s ≤ t) : secs s ≤ secs t := by
  obtain ⟨d, rfl⟩ := Nat.exists_eq_add_of_le h
  rw [secs_add]
  exact le_add_of_nonneg_right (secs_nonneg d)

/-- Time that passes up to an instant, and from then on. -/
theorem secs_split {now later : ℕ} (seen : ℕ) (h : now ≤ later) :
    secs (now - seen) + secs (later - max seen now) = secs (later - seen) := by
  rw [← secs_add]
  congr 1
  show now - seen + (later - max seen now) = later - seen
  omega

/-! ## What comes back -/

/-- A bucket that holds at least nothing, and at most what it has room for. -/
structure Sound (b : Bucket ℚ) : Prop where
  refill : 0 ≤ b.rate.refill
  nonneg : 0 ≤ b.tokens
  le_capacity : b.tokens ≤ b.rate.capacity

section Refilled

variable {b : Bucket ℚ} {now later : Instant}

theorem refilled_tokens (b : Bucket ℚ) (now : Instant) : (b.refilled now).tokens =
    min (b.tokens + secs (now - b.seen) * b.rate.refill) b.rate.capacity := by
  rw [min_def]
  exact if_congr decide_eq_true_iff rfl rfl

theorem sound_full {rate : Rate ℚ} (hcapacity : 0 ≤ rate.capacity) (hrefill : 0 ≤ rate.refill)
    (now : Instant) : (full rate now).Sound where
  refill := hrefill
  nonneg := hcapacity
  le_capacity := le_rfl

theorem Sound.gain (h : b.Sound) (s : Span) : 0 ≤ secs s * b.rate.refill :=
  mul_nonneg (secs_nonneg s) h.refill

theorem Sound.refilled (h : b.Sound) (now : Instant) : (b.refilled now).Sound where
  refill := h.refill
  nonneg := by
    rw [refilled_tokens]
    exact le_min (add_nonneg h.nonneg (h.gain _)) (h.nonneg.trans h.le_capacity)
  le_capacity := by
    rw [refilled_tokens]
    exact min_le_right _ _

/-- **Taking in twice is taking in once.** -/
theorem Sound.refilled_refilled (h : b.Sound) (hle : now ≤ later) :
    (b.refilled now).refilled later = b.refilled later := by
  have hgain := h.gain (later - max b.seen now)
  have htokens : ((b.refilled now).refilled later).tokens = (b.refilled later).tokens := by
    rw [refilled_tokens (b.refilled now), refilled_tokens b now, refilled_tokens b later]
    show min (min _ b.rate.capacity + secs (later - max b.seen now) * b.rate.refill)
      b.rate.capacity = _
    -- a bucket that was full stays full
    rw [← secs_split b.seen hle, add_mul, min_add, min_assoc,
      min_eq_right (a := b.rate.capacity + _) (by linarith), add_assoc]
  have hseen : max (max b.seen now) later = max b.seen later := by
    rw [max_assoc, max_eq_right hle]
  show Bucket.mk _ _ (max (max b.seen now) later) = Bucket.mk _ _ (max b.seen later)
  rw [hseen]
  exact congrArg (Bucket.mk b.rate · _) htokens

/-- No more comes back than the time that passes allows. -/
theorem Sound.refilled_le (h : b.Sound) (hle : now ≤ later) : (b.refilled later).tokens ≤
    (b.refilled now).tokens + secs (later - max b.seen now) * b.rate.refill := by
  rw [← h.refilled_refilled hle, refilled_tokens (b.refilled now)]
  exact min_le_left _ _

end Refilled

/-! ## What is done with a bucket -/

/-- What a caller does with a bucket. -/
inductive Use where
  | take (cost : ℚ)
  | look (cost : ℚ)
  /-- One round of an acquisition. -/
  | request (deadline : Deadline)

/-- The tokens that a use is for. -/
def Use.cost : Use → ℚ
  | take cost => cost
  | look _ => 0
  | request _ => 1

/-- The tokens that a use has taken, and the bucket after it. -/
def use (b : Bucket ℚ) (now : Instant) : Use → ℚ × Bucket ℚ
  | .take cost => (if (b.tryTake cost now).1 then cost else 0, (b.tryTake cost now).2)
  | .look cost => (0, (b.wait cost now).2)
  | .request deadline =>
    (if (b.request deadline now).1 = .granted then 1 else 0, (b.request deadline now).2)

/-- Some uses one after the other, and the tokens that each of them has taken. -/
def run (b : Bucket ℚ) : List (Instant × Use) → List (Instant × ℚ) × Bucket ℚ
  | [] => ([], b)
  | (now, u) :: uses =>
    ((now, (b.use now u).1) :: ((b.use now u).2.run uses).1, ((b.use now u).2.run uses).2)

/-- The tokens that were taken from one instant to another, both included. -/
def takenWithin (first last : Instant) (log : List (Instant × ℚ)) : ℚ :=
  ((log.filter fun x => first ≤ x.1 ∧ x.1 ≤ last).map Prod.snd).sum

/-- A bucket without some of the tokens it holds. -/
def without (b : Bucket ℚ) (amount : ℚ) : Bucket ℚ :=
  { b with tokens := b.tokens - amount }

section Use

variable {b : Bucket ℚ} {now : Instant}

theorem without_zero (b : Bucket ℚ) : b.without 0 = b := by
  unfold without
  rw [sub_zero]

theorem Sound.without (h : b.Sound) {amount : ℚ} (hnonneg : 0 ≤ amount)
    (hle : amount ≤ b.tokens) : (b.without amount).Sound where
  refill := h.refill
  nonneg := sub_nonneg.2 hle
  le_capacity := (sub_le_self _ hnonneg).trans h.le_capacity

theorem tryTake_eq (b : Bucket ℚ) (cost : ℚ) (now : Instant) : b.tryTake cost now =
    if cost ≤ (b.refilled now).tokens then (true, (b.refilled now).without cost)
    else (false, b.refilled now) :=
  if_congr decide_eq_true_iff rfl rfl

theorem delay_eq (b : Bucket ℚ) (cost : ℚ) (now : Instant) : b.delay cost now =
    if cost ≤ (b.refilled now).tokens then (some 0, b.refilled now)
    else if b.rate.refill ≤ 0 then (none, b.refilled now)
    else (some ((cost - (b.refilled now).tokens) / b.rate.refill), b.refilled now) := by
  have hmissing : cost - (b.refilled now).tokens ≤ ((0 : ℕ) : ℚ) ↔
      cost ≤ (b.refilled now).tokens := by
    rw [Nat.cast_zero, sub_nonpos]
  have hrefill : b.rate.refill ≤ ((0 : ℕ) : ℚ) ↔ b.rate.refill ≤ 0 := by rw [Nat.cast_zero]
  exact if_congr (decide_eq_true_iff.trans hmissing) rfl
    (if_congr (decide_eq_true_iff.trans hrefill) rfl rfl)

theorem delay_snd (b : Bucket ℚ) (cost : ℚ) (now : Instant) :
    (b.delay cost now).2 = b.refilled now := by
  rw [delay_eq]
  split_ifs <;> rfl

/-- A request takes one token if there is one, and nothing otherwise. -/
theorem Sound.request_spec (h : b.Sound) (deadline : Deadline) (now : Instant) :
    (b.request deadline now).1 = .granted ∧ 1 ≤ (b.refilled now).tokens ∧
        (b.request deadline now).2 = (b.refilled now).without 1 ∨
      (b.request deadline now).1 ≠ .granted ∧ (b.request deadline now).2 = b.refilled now := by
  have hone : (Quantity.ofNat 1 : ℚ) = 1 := Nat.cast_one
  have hwait : ((b.refilled now).wait 1 now).2 = b.refilled now := by
    unfold wait
    rw [delay_snd, h.refilled_refilled le_rfl]
  unfold request
  rw [hone, tryTake_eq]
  by_cases henough : 1 ≤ (b.refilled now).tokens
  · rw [if_pos henough]
    exact .inl ⟨rfl, henough, rfl⟩
  · rw [if_neg henough]
    dsimp only
    right
    rcases hw : (b.refilled now).wait 1 now with ⟨_ | span, b'⟩
    · rw [hw] at hwait
      exact ⟨nofun, hwait⟩
    · rw [hw] at hwait
      dsimp only
      split
      · exact ⟨nofun, hwait⟩
      · exact ⟨nofun, hwait⟩

/-- **All that a use can do**: what came back is taken in, and some of it is given away. -/
theorem Sound.use_spec (h : b.Sound) {u : Use} (hcost : 0 ≤ u.cost) (now : Instant) :
    (b.use now u).2 = (b.refilled now).without (b.use now u).1 ∧ 0 ≤ (b.use now u).1 ∧
      (b.use now u).1 ≤ (b.refilled now).tokens := by
  have hrefilled := (h.refilled now).nonneg
  cases u with
  | take cost =>
    have htake : b.use now (.take cost) =
        (if (b.tryTake cost now).1 then cost else 0, (b.tryTake cost now).2) := rfl
    rw [htake, tryTake_eq]
    split
    · exact ⟨rfl, hcost, ‹_›⟩
    · exact ⟨(without_zero _).symm, le_rfl, hrefilled⟩
  | look cost =>
    refine ⟨?_, le_rfl, hrefilled⟩
    show (b.wait cost now).2 = (b.refilled now).without 0
    rw [without_zero, wait, delay_snd]
  | request deadline =>
    have hrequest : b.use now (.request deadline) =
        (if (b.request deadline now).1 = .granted then 1 else 0, (b.request deadline now).2) := rfl
    rw [hrequest]
    rcases h.request_spec deadline now with ⟨hgrant, henough, hbucket⟩ | ⟨hgrant, hbucket⟩
    · rw [if_pos hgrant]
      exact ⟨hbucket, zero_le_one, henough⟩
    · rw [if_neg hgrant, without_zero]
      exact ⟨hbucket, le_rfl, hrefilled⟩

theorem Sound.use (h : b.Sound) {u : Use} (hcost : 0 ≤ u.cost) (now : Instant) :
    (b.use now u).2.Sound := by
  obtain ⟨hbucket, hnonneg, hle⟩ := h.use_spec hcost now
  rw [hbucket]
  exact (h.refilled now).without hnonneg hle

end Use

/-! ## Any number of uses -/

section Run

variable {b : Bucket ℚ} {uses : List (Instant × Use)} {first last now : Instant}

/-- Uses in the order of time, for no less than nothing each. -/
structure Timely (uses : List (Instant × Use)) : Prop where
  ordered : uses.Pairwise fun x y => x.1 ≤ y.1
  costs : ∀ x ∈ uses, 0 ≤ x.2.cost

theorem Timely.tail {x : Instant × Use} (h : Timely (x :: uses)) : Timely uses where
  ordered := (List.pairwise_cons.1 h.ordered).2
  costs y hy := h.costs y (List.mem_cons_of_mem _ hy)

/-- **A bucket never holds less than nothing, or more than it has room for.** -/
theorem Sound.run (h : b.Sound) (huses : ∀ x ∈ uses, 0 ≤ x.2.cost) :
    (b.run uses).2.Sound ∧ (b.run uses).2.rate = b.rate := by
  induction uses generalizing b with
  | nil => exact ⟨h, rfl⟩
  | cons x uses ih =>
    obtain ⟨now, u⟩ := x
    have hcost := huses _ List.mem_cons_self
    obtain ⟨hsound, hrate⟩ := ih (h.use hcost now) fun y hy =>
      huses y (List.mem_cons_of_mem _ hy)
    refine ⟨hsound, hrate.trans ?_⟩
    rw [(h.use_spec hcost now).1]
    rfl

/-- Nothing is taken from one instant to another by uses that come later. -/
theorem takenWithin_later {log : List (Instant × ℚ)} (h : ∀ x ∈ log, last < x.1) :
    takenWithin first last log = 0 := by
  have hnone : log.filter (fun x => first ≤ x.1 ∧ x.1 ≤ last) = [] := by
    rw [List.filter_eq_nil_iff]
    intro x hx hwithin
    exact absurd (of_decide_eq_true hwithin).2 (not_le.2 (h x hx))
  rw [takenWithin, hnone]
  rfl

theorem instants_run (b : Bucket ℚ) (uses : List (Instant × Use)) :
    (b.run uses).1.map Prod.fst = uses.map Prod.fst := by
  induction uses generalizing b with
  | nil => rfl
  | cons x uses ih => exact congrArg (x.1 :: ·) (ih _)

theorem takenWithin_cons (x : Instant × ℚ) (log : List (Instant × ℚ)) :
    takenWithin first last (x :: log) =
      (if first ≤ x.1 ∧ x.1 ≤ last then x.2 else 0) + takenWithin first last log := by
  unfold takenWithin
  by_cases hwithin : first ≤ x.1 ∧ x.1 ≤ last
  · simp [hwithin]
  · simp [hwithin]

/-- A bucket that gave something away does not hold more later on. -/
theorem refilled_without_le {amount : ℚ} (hnonneg : 0 ≤ amount) (now : Instant) :
    ((b.without amount).refilled now).tokens ≤ (b.refilled now).tokens := by
  rw [refilled_tokens, refilled_tokens]
  refine min_le_min_right _ (add_le_add_left ?_ _)
  exact sub_le_self _ hnonneg

/-- A bucket that was looked at later holds what it holds. -/
theorem Sound.refilled_of_le (h : b.Sound) (hle : now ≤ b.seen) :
    (b.refilled now).tokens = b.tokens := by
  have hspan : now - b.seen = 0 := Nat.sub_eq_zero_of_le hle
  rw [refilled_tokens, hspan, show secs 0 = 0 by simp [secs], zero_mul, add_zero,
    min_eq_left h.le_capacity]

/-- **What is taken was there at first, or came back.** -/
theorem Sound.taken_le (h : b.Sound) (huses : Timely uses) :
    takenWithin first last (b.run uses).1 ≤
      (b.refilled first).tokens + secs (last - max b.seen first) * b.rate.refill := by
  induction uses generalizing b with
  | nil => exact add_nonneg (h.refilled first).nonneg (h.gain _)
  | cons x uses ih =>
    obtain ⟨now, u⟩ := x
    have hcost := huses.costs _ List.mem_cons_self
    obtain ⟨hbucket, hnonneg, hheld⟩ := h.use_spec hcost now
    have hsound := h.use hcost now
    have hrest := ih hsound huses.tail
    show takenWithin first last ((now, (b.use now u).1) :: ((b.use now u).2.run uses).1) ≤ _
    rw [takenWithin_cons]
    rw [hbucket] at hrest hsound ⊢
    generalize (b.use now u).1 = amount at hnonneg hheld hrest hsound ⊢
    have hrate : ((b.refilled now).without amount).rate = b.rate := rfl
    have hseen : ((b.refilled now).without amount).seen = max b.seen now := rfl
    rw [hrate, hseen] at hrest
    rcases lt_or_ge now first with hbefore | hfrom
    · -- too early to count; the bucket is no fuller for it
      have hless := refilled_without_le (b := b.refilled now) hnonneg first
      rw [h.refilled_refilled hbefore.le] at hless
      rw [max_assoc, max_eq_right hbefore.le] at hrest
      rw [if_neg fun hwithin => absurd hwithin.1 (not_le.2 hbefore), zero_add]
      linarith
    rcases lt_or_ge last now with hafter | huntil
    · -- too late to count, and so is everything after it
      have hlater : takenWithin first last (((b.refilled now).without amount).run uses).1 = 0 := by
        refine takenWithin_later fun y hy => lt_of_lt_of_le hafter ?_
        have hinstant : y.1 ∈ uses.map Prod.fst := by
          rw [← instants_run ((b.refilled now).without amount)]
          exact List.mem_map_of_mem hy
        obtain ⟨z, hz, heq⟩ := List.mem_map.1 hinstant
        rw [← heq]
        exact (List.pairwise_cons.1 huses.ordered).1 z hz
      rw [hlater, if_neg fun hwithin => absurd hwithin.2 (not_le.2 hafter), add_zero]
      exact add_nonneg (h.refilled first).nonneg (h.gain _)
    · -- it counts: what it took is missing from then on
      have hleft : (((b.refilled now).without amount).refilled first).tokens =
          (b.refilled now).tokens - amount :=
        hsound.refilled_of_le (hfrom.trans (le_max_right _ _))
      have hback := h.refilled_le hfrom
      have hsplit := secs_split (max b.seen first) huntil
      rw [max_assoc, max_eq_right hfrom] at hsplit
      rw [hleft, max_assoc, max_comm now first, max_eq_right hfrom] at hrest
      rw [if_pos ⟨hfrom, huntil⟩, ← hsplit, add_mul]
      linarith

/-- **Uses that take nothing do not matter** to those that come later. -/
theorem Sound.run_idle (h : b.Sound) (huses : Timely uses) (hle : ∀ x ∈ uses, x.1 ≤ now)
    (hidle : ∀ x ∈ (b.run uses).1, x.2 = 0) : (b.run uses).2.refilled now = b.refilled now := by
  induction uses generalizing b with
  | nil => rfl
  | cons x uses ih =>
    obtain ⟨then_, u⟩ := x
    have hcost := huses.costs _ List.mem_cons_self
    have hnothing : (b.use then_ u).1 = 0 := hidle _ List.mem_cons_self
    have hbucket := (h.use_spec hcost then_).1
    rw [hnothing, without_zero] at hbucket
    have hrest := ih (h.use hcost then_) huses.tail
      (fun y hy => hle y (List.mem_cons_of_mem _ hy)) fun y hy => hidle y (List.mem_cons_of_mem _ hy)
    exact hrest.trans (by rw [hbucket, h.refilled_refilled (hle _ List.mem_cons_self)])

/-- A bucket was last looked at when it was last used. -/
theorem Sound.seen_le (h : b.Sound) (huses : Timely uses) (hseen : b.seen ≤ now)
    (hle : ∀ x ∈ uses, x.1 ≤ now) : (b.run uses).2.seen ≤ now := by
  induction uses generalizing b with
  | nil => exact hseen
  | cons x uses ih =>
    have hcost := huses.costs _ List.mem_cons_self
    refine ih (h.use hcost x.1) huses.tail ?_ fun y hy => hle y (List.mem_cons_of_mem _ hy)
    rw [(h.use_spec hcost x.1).1]
    exact max_le hseen (hle _ List.mem_cons_self)

/-- Nobody takes less than nothing. -/
theorem Sound.nonneg_run (h : b.Sound) (huses : Timely uses) : ∀ x ∈ (b.run uses).1, 0 ≤ x.2 := by
  induction uses generalizing b with
  | nil =>
    intro x hx
    exact absurd hx List.not_mem_nil
  | cons x uses ih =>
    have hcost := huses.costs _ List.mem_cons_self
    intro y hy
    rcases List.mem_cons.1 hy with rfl | hy
    · exact (h.use_spec hcost _).2.1
    · exact ih (h.use hcost _) huses.tail y hy

/-- The single tokens that were taken from one instant to another. -/
def singlesWithin (first last : Instant) (log : List (Instant × ℚ)) : ℕ :=
  log.countP fun x => first ≤ x.1 ∧ x.1 ≤ last ∧ x.2 = 1

theorem singlesWithin_le {log : List (Instant × ℚ)} (h : ∀ x ∈ log, 0 ≤ x.2) :
    singlesWithin first last log ≤ takenWithin first last log := by
  induction log with
  | nil => exact le_rfl
  | cons x log ih =>
    have hrest := ih fun y hy => h y (List.mem_cons_of_mem _ hy)
    have hx := h x List.mem_cons_self
    rw [takenWithin_cons]
    unfold singlesWithin at hrest ⊢
    rw [List.countP_cons]
    by_cases hwithin : first ≤ x.1 ∧ x.1 ≤ last
    · rw [if_pos hwithin]
      by_cases hone : x.2 = 1
      · simp only [hwithin.1, hwithin.2, hone, and_self, decide_true, if_true]
        push_cast
        linarith
      · simp only [hone, and_false, decide_false, Bool.false_eq_true, if_false, add_zero]
        linarith
    · have hnot : ¬(first ≤ x.1 ∧ x.1 ≤ last ∧ x.2 = 1) := fun hall =>
        hwithin ⟨hall.1, hall.2.1⟩
      rw [if_neg hwithin, decide_eq_false hnot]
      simpa using hrest

/-! ## Delays -/

/-- A bucket that is looked at now has enough later, if enough comes back meanwhile. -/
theorem enough_later_iff {cost : ℚ} {later : Instant} (hseen : b.seen ≤ now)
    (hcost : cost ≤ b.rate.capacity) : cost ≤ ((b.refilled now).refilled later).tokens ↔
      cost ≤ (b.refilled now).tokens + secs (later - now) * b.rate.refill := by
  have hnow : (b.refilled now).seen = now := max_eq_right hseen
  rw [refilled_tokens (b.refilled now), hnow]
  exact le_min_iff.trans (and_iff_left hcost)

/-- **A delay is exact**: at any later instant there are enough tokens just if it is over, whoever looked
meanwhile. -/
theorem Sound.delay_exact (h : b.Sound) {cost : ℚ} (hseen : b.seen ≤ now)
    (hrefill : 0 < b.rate.refill) (hcost : cost ≤ b.rate.capacity) :
    ∃ seconds, (b.delay cost now).1 = some seconds ∧ 0 ≤ seconds ∧
      ∀ others later, Timely others → (∀ x ∈ others, x.1 ≤ later) →
        (∀ x ∈ ((b.delay cost now).2.run others).1, x.2 = 0) →
        ((((b.delay cost now).2.run others).2.tryTake cost later).1 = true ↔
          seconds ≤ secs (later - now)) := by
  have henough (others : List (Instant × Use)) (later : Instant) (hothers : Timely others)
      (hlater : ∀ x ∈ others, x.1 ≤ later) (hidle : ∀ x ∈ ((b.refilled now).run others).1, x.2 = 0) :
      (((b.refilled now).run others).2.tryTake cost later).1 = true ↔
        cost ≤ (b.refilled now).tokens + secs (later - now) * b.rate.refill := by
    rw [← enough_later_iff hseen hcost, ← (h.refilled now).run_idle hothers hlater hidle, tryTake_eq]
    split
    · exact iff_of_true rfl ‹_›
    · exact iff_of_false Bool.false_ne_true ‹_›
  rw [delay_snd, delay_eq]
  by_cases hthere : cost ≤ (b.refilled now).tokens
  · rw [if_pos hthere]
    refine ⟨0, rfl, le_rfl, fun others later hothers hlater hidle => ?_⟩
    rw [henough others later hothers hlater hidle]
    have hgain := h.gain (later - now)
    exact iff_of_true (by linarith) (secs_nonneg _)
  · rw [if_neg hthere, if_neg (not_le.2 hrefill)]
    refine ⟨_, rfl, div_nonneg (sub_nonneg.2 (not_le.1 hthere).le) hrefill.le,
      fun others later hothers hlater hidle => ?_⟩
    rw [henough others later hothers hlater hidle, div_le_iff₀ hrefill, sub_le_iff_le_add']

/-- **A bucket never exceeds its rate.** Whatever any number of callers do with it, one after the other:
it holds at least nothing and at most what it has room for, and from one instant to another it grants at
most as many tokens as it has room for and as come back meanwhile. If it has room for what a caller
wants, and something comes back, then the delay it tells is exact: unless somebody else takes
something, the caller gets it at every instant from the end of the delay on, and at none before. -/
theorem rate_limited (rate : Rate ℚ) (start : Instant) (hcapacity : 0 ≤ rate.capacity)
    (hrefill : 0 ≤ rate.refill) (uses : List (Instant × Use)) (huses : Timely uses) :
    let log := ((full rate start).run uses).1
    let b := ((full rate start).run uses).2
    (0 ≤ b.tokens ∧ b.tokens ≤ rate.capacity) ∧
    (∀ first last, takenWithin first last log ≤
      rate.capacity + rate.refill * secs (last - first)) ∧
    (∀ first last, singlesWithin first last log ≤
      rate.capacity + rate.refill * secs (last - first)) ∧
    ∀ now cost, start ≤ now → (∀ x ∈ uses, x.1 ≤ now) → cost ≤ rate.capacity → 0 < rate.refill →
      ∃ seconds, (b.delay cost now).1 = some seconds ∧ 0 ≤ seconds ∧
        ∀ others later, Timely others → (∀ x ∈ others, x.1 ≤ later) →
          (∀ x ∈ ((b.delay cost now).2.run others).1, x.2 = 0) →
          ((((b.delay cost now).2.run others).2.tryTake cost later).1 = true ↔
            seconds ≤ secs (later - now)) := by
  intro log b
  have hfull := sound_full hcapacity hrefill start
  obtain ⟨hsound, hrate⟩ := hfull.run huses.costs
  have hrate : b.rate = rate := hrate
  have htaken (first last : Instant) : takenWithin first last log ≤
      rate.capacity + rate.refill * secs (last - first) := by
    have htaken : takenWithin first last log ≤ _ := hfull.taken_le huses
    have hroom := (hfull.refilled first).le_capacity
    have hspan : secs (last - max start first) ≤ secs (last - first) :=
      secs_mono (Nat.sub_le_sub_left (le_max_right _ _) _)
    have hback := mul_le_mul_of_nonneg_right hspan hrefill
    have hcapacity : ((full rate start).refilled first).rate.capacity = rate.capacity := rfl
    have hsame : (full rate start).seen = start ∧ (full rate start).rate = rate := ⟨rfl, rfl⟩
    rw [hsame.1, hsame.2] at htaken
    rw [mul_comm rate.refill]
    linarith
  refine ⟨⟨hsound.nonneg, hrate ▸ hsound.le_capacity⟩, htaken, fun first last => ?_,
    fun now cost hstart hnow hcost hpositive => ?_⟩
  · exact (singlesWithin_le (hfull.nonneg_run huses)).trans (htaken first last)
  · rw [← hrate] at hpositive hcost
    exact hsound.delay_exact (hfull.seen_le huses hstart hnow) hpositive hcost

/-- Two tokens at once, and then one more a second later, whoever looks in between. -/
theorem rate_limited_two :
    let uses := [(0, Use.take 1), (0, Use.request none)]
    let others := [(500000000, Use.look 1)]
    let b := ((full ⟨2, 1⟩ 0).run uses).2
    Timely uses ∧ Timely others ∧
      singlesWithin 0 500000000 ((full ⟨2, 1⟩ 0).run uses).1 ≤
        (2 : ℚ) + 1 * secs (500000000 - 0) ∧
      ∃ seconds, (b.delay 1 0).1 = some seconds ∧
        ((((b.delay 1 0).2.run others).2.tryTake 1 1000000000).1 = true ↔
          seconds ≤ secs (1000000000 - 0)) := by
  intro uses others b
  have huses : Timely uses := by
    constructor
    · simp [uses]
    · simp [uses, Use.cost]
  have hothers : Timely others := by
    constructor
    · simp [others]
    · simp [others, Use.cost]
  obtain ⟨-, -, hsingles, hdelay⟩ :=
    rate_limited ⟨2, 1⟩ 0 (by norm_num) (by norm_num) uses huses
  obtain ⟨seconds, htold, -, hexact⟩ :=
    hdelay 0 1 le_rfl (by simp [uses]) (by norm_num) (by norm_num)
  refine ⟨huses, hothers, hsingles 0 500000000, seconds, htold, ?_⟩
  refine hexact others 1000000000 hothers (by simp [others]) fun x hx => ?_
  rw [List.mem_singleton.1 hx]
  rfl

end Run

end Bucket

end ChainIndex
