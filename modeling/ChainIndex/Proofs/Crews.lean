import ChainIndex.Activity.Crew
import Mathlib.Data.List.Basic
import Mathlib.Data.List.Nodup
import Mathlib.Data.List.Perm.Basic

/-!
# A crew finishes what it has begun

What holds of the end of an activity, whatever others do to the world meanwhile (`Activity.Always`), holds
of it when it is run alone (`Always.run`) and in a crew. A crew is sound if those who wait are those
who are busy, each of them once (`Crew.Sound`); this lasts while it goes on (`Sound.next`).

* `Sound.next_none`: when nobody comes to an end any more, nobody is busy.
* `Sound.finish`: **every activity of a crew comes to its end once**.
-/

namespace ChainIndex

namespace Activity

variable {σ α : Type}

/-- Whatever others do, as long as they keep to `I`, the activity keeps to it too and ends in `P`. -/
def Always (I : σ → Prop) (P : α → Prop) : Activity σ α → Prop
  | done a => P a
  | look next => ∀ s, I s → (next s).Always I P
  | put s next => I s ∧ next.Always I P
  | wait _ next => next.Always I P

/-- What an activity may end with, in some world or other. -/
def May : Activity σ α → α → Prop
  | done a, b => b = a
  | look next, b => ∃ s, (next s).May b
  | put _ next, b => next.May b
  | wait _ next, b => next.May b

theorem Always.imp {I : σ → Prop} {P Q : α → Prop} {a : Activity σ α} (h : a.Always I P)
    (hpq : ∀ b, P b → Q b) : a.Always I Q := by
  induction a with
  | done a => exact hpq a h
  | look next ih => exact fun s hs => ih s (h s hs)
  | put s next ih => exact ⟨h.1, ih h.2⟩
  | wait t next ih => exact ih h

theorem always_may (a : Activity σ α) : a.Always (fun _ => True) a.May := by
  induction a with
  | done a => rfl
  | look next ih => exact fun s _ => (ih s).imp fun b hb => ⟨s, hb⟩
  | put s next ih => exact ⟨trivial, ih⟩
  | wait t next ih => exact ih

end Activity

/-- A property of worlds that lasts while time passes. -/
def Timeless {σ : Type} [Clocked σ] (I : σ → Prop) : Prop :=
  ∀ t s, I s → I (Clocked.goTo t s)

theorem Timeless.reach {σ : Type} [Clocked σ] {I : σ → Prop} (h : Timeless I) (t : Instant) {s : σ}
    (hs : I s) : I (Clocked.reach t s) := by
  unfold Clocked.reach
  split
  · exact h t s hs
  · exact hs

namespace Activity

variable {σ α : Type} [Clocked σ] {I : σ → Prop} {P : α → Prop}

theorem Always.run {a : Activity σ α} (h : a.Always I P) (hI : Timeless I) {s : σ} (hs : I s) :
    P (a.run s).1 ∧ I (a.run s).2 := by
  induction a generalizing s with
  | done a => exact ⟨h, hs⟩
  | look next ih => exact ih s (h s hs) hs
  | put u next ih => exact ih h.2 h.1
  | wait t next ih => exact ih h (hI.reach t hs)

/-- How far an activity got, and the world after it. -/
def Kept (I : σ → Prop) (P : α → Prop) : Progress σ α × σ → Prop
  | (.ended a, s) => P a ∧ I s
  | (.waiting _ rest, s) => rest.Always I P ∧ I s

theorem Always.proceed {a : Activity σ α} (h : a.Always I P) {s : σ} (hs : I s) :
    Kept I P (a.proceed s) := by
  induction a generalizing s with
  | done a => exact ⟨h, hs⟩
  | look next ih => exact ih s (h s hs) hs
  | put u next ih => exact ih h.2 h.1
  | wait t next ih =>
    rw [Activity.proceed]
    split
    · exact ⟨h, hs⟩
    · exact ih h hs

end Activity

/-! ## Agendas -/

namespace Agenda

theorem nextOf?_none {days : List Day} (h : nextOf? none days = none) :
    days.flatMap Day.toList = [] := by
  induction days with
  | nil => rfl
  | cons d rest ih =>
    rw [nextOf?] at h
    cases he : d.early with
    | nil =>
      simp only [he, List.isEmpty_nil, if_true] at h
      split at h
      · rename_i hl
        simp [Day.toList, ih h, he, hl]
      · simp at h
    | cons who early => simp [he] at h

/-- Without a limit, somebody comes first as long as anybody waits. -/
theorem next?_none {a : Agenda} (h : a.next? none = none) : a.toList = [] :=
  nextOf?_none (Option.map_eq_none_iff.1 h)

/-- Those who wait, in the order in which they come. -/
def waiting (a : Agenda) : List Nat :=
  a.toList.map Prod.snd

theorem waiting_add (a : Agenda) (t : Instant) (who : Nat) :
    ((a.add t who).waiting).Perm (who :: a.waiting) := by
  obtain ⟨before, after, h, h'⟩ := a.toList_add t who
  rw [waiting, waiting, h, h', List.map_append, List.map_append, List.map_cons]
  exact List.perm_middle

theorem waiting_next? {a b : Agenda} {limit : Option Instant} {t : Instant} {who : Nat}
    (h : a.next? limit = some (t, who, b)) : a.waiting = who :: b.waiting := by
  rw [waiting, toList_next? h]
  rfl

end Agenda

/-! ## Crews -/

namespace Crew

variable {σ α : Type}

/-- Somebody is at work at a place. -/
def Busy (c : Crew σ α) (place : Nat) : Prop :=
  ∃ a, c.places[place]? = some (some a)

/-- Those who wait are those who are busy, each once, and what they do ends in `P`. -/
structure Sound (I : σ → Prop) (P : Nat → α → Prop) (c : Crew σ α) : Prop where
  nodup : c.agenda.waiting.Nodup
  busy : ∀ place, place ∈ c.agenda.waiting ↔ c.Busy place
  always : ∀ (place : Nat) (a : Activity σ α), c.places[place]? = some (some a) → a.Always I (P place)

/-- The same for everybody else, while one of them goes on. -/
structure Besides (I : σ → Prop) (P : Nat → α → Prop) (place : Nat) (c : Crew σ α) : Prop where
  nodup : (place :: c.agenda.waiting).Nodup
  busy : ∀ q, q ≠ place → (q ∈ c.agenda.waiting ↔ c.Busy q)
  always : ∀ (q : Nat) (a : Activity σ α), q ≠ place → c.places[q]? = some (some a) → a.Always I (P q)

variable {I : σ → Prop} {P : Nat → α → Prop} {c : Crew σ α} {place : Nat}

theorem Sound.besides (h : c.Sound I P) (hfree : ¬c.Busy place) : c.Besides I P place where
  nodup := List.nodup_cons.2 ⟨fun hmem => hfree ((h.busy place).1 hmem), h.nodup⟩
  busy q _ := h.busy q
  always q a _ := h.always q a

theorem Sound.besides_next (h : c.Sound I P) {limit : Option Instant} {t : Instant}
    {agenda : Agenda} (hnext : c.agenda.next? limit = some (t, place, agenda)) :
    Besides I P place { c with agenda } := by
  -- who is called leaves the agenda, but is still busy
  have hwaiting := Agenda.waiting_next? hnext
  refine ⟨hwaiting ▸ h.nodup, fun q hq => ?_, fun q a _ => h.always q a⟩
  rw [show Busy { c with agenda } q ↔ c.Busy q from Iff.rfl, ← h.busy q, hwaiting, List.mem_cons]
  exact ⟨.inr, fun hor => hor.resolve_left hq⟩

theorem busy_set {x : Option (Activity σ α)} {agenda : Agenda} {q : Nat} (hq : q ≠ place) :
    Busy { places := c.places.setIfInBounds place x, agenda } q ↔ c.Busy q := by
  unfold Busy
  rw [Array.getElem?_setIfInBounds_ne (Ne.symm hq)]

theorem not_busy_leave : ¬(c.leave place).Busy place := by
  rintro ⟨a, ha⟩
  simp only [leave, Array.getElem?_setIfInBounds_self] at ha
  split at ha
  · cases ha
  · cases ha

theorem busy_wait {t : Instant} {a : Activity σ α} (hplace : place < c.places.size) :
    (c.wait place t a).Busy place :=
  ⟨a, by simp [wait, hplace]⟩

theorem Besides.leave (h : c.Besides I P place) : (c.leave place).Sound I P := by
  obtain ⟨hnot, hnodup⟩ := List.nodup_cons.1 h.nodup
  refine ⟨hnodup, fun q => ?_, fun q a ha => ?_⟩
  · by_cases hq : q = place
    · subst hq
      exact ⟨fun hmem => absurd hmem hnot, fun hbusy => absurd hbusy not_busy_leave⟩
    · exact (h.busy q hq).trans (busy_set hq).symm
  · by_cases hq : q = place
    · subst hq
      exact absurd ⟨a, ha⟩ not_busy_leave
    · rw [Crew.leave, Array.getElem?_setIfInBounds_ne (Ne.symm hq)] at ha
      exact h.always q a hq ha

theorem Besides.wait (h : c.Besides I P place) (hplace : place < c.places.size) (t : Instant)
    {a : Activity σ α} (ha : a.Always I (P place)) : (c.wait place t a).Sound I P := by
  have hperm := c.agenda.waiting_add t place
  refine ⟨hperm.nodup_iff.2 h.nodup, fun q => ?_, fun q b hb => ?_⟩
  · rw [show q ∈ (c.wait place t a).agenda.waiting ↔ _ from hperm.mem_iff, List.mem_cons]
    by_cases hq : q = place
    · subst hq
      exact ⟨fun _ => busy_wait hplace, fun _ => .inl rfl⟩
    · exact ⟨fun hor => (busy_set hq).2 ((h.busy q hq).1 (hor.resolve_left hq)),
        fun hbusy => .inr ((h.busy q hq).2 ((busy_set hq).1 hbusy))⟩
  · by_cases hq : q = place
    · subst hq
      simp only [Crew.wait, Array.getElem?_setIfInBounds_self, hplace, if_true,
        Option.some.injEq] at hb
      exact hb ▸ ha
    · rw [Crew.wait, Array.getElem?_setIfInBounds_ne (Ne.symm hq)] at hb
      exact h.always q b hq hb

variable [Clocked σ]

/-- What is left of a crew after somebody at a place came to an end. -/
structure Left (I : σ → Prop) (P : Nat → α → Prop) (c : Crew σ α) (place : Nat) (c' : Crew σ α)
    (s' : σ) : Prop where
  sound : c'.Sound I P
  world : I s'
  size : c'.places.size = c.places.size
  was : c.Busy place
  busy : ∀ q, c'.Busy q ↔ c.Busy q ∧ q ≠ place

/-- What is left of a crew in which nobody came to an end. -/
structure Same (I : σ → Prop) (P : Nat → α → Prop) (c c' : Crew σ α) (s' : σ) : Prop where
  sound : c'.Sound I P
  world : I s'
  size : c'.places.size = c.places.size
  busy : ∀ q, c'.Busy q ↔ c.Busy q

variable {limit : Option Instant} {s s' : σ} {c' : Crew σ α} {r : α}

/-- Nobody goes on only if nobody waits. -/
theorem Sound.advance?_none (h : c.Sound I P) (hnone : c.advance? none s = none) (q : Nat) :
    ¬c.Busy q := by
  intro hbusy
  cases hnext : c.agenda.next? none with
  | none =>
    have hmem := (h.busy q).2 hbusy
    rw [Agenda.waiting, Agenda.next?_none hnext] at hmem
    exact absurd hmem List.not_mem_nil
  | some x =>
    obtain ⟨t, place, agenda⟩ := x
    have hmem : place ∈ c.agenda.waiting := by
      rw [Agenda.waiting_next? hnext]
      exact List.mem_cons_self
    obtain ⟨a, ha⟩ := (h.busy place).1 hmem
    -- somebody waits, and whoever waits can go on
    simp only [advance?, hnext, Option.bind_eq_bind, Option.bind_some, ha] at hnone
    split at hnone <;> cases hnone

theorem Sound.advance?_ended (h : c.Sound I P) (hI : Timeless I) (hs : I s)
    (hr : c.advance? limit s = some (some (place, r), c', s')) :
    P place r ∧ Left I P c place c' s' := by
  obtain ⟨⟨t, who, agenda⟩, hnext, hr⟩ := Option.bind_eq_some_iff.1 hr
  dsimp only at hr
  split at hr
  · rename_i a ha
    have hkept := (h.always who a ha).proceed (hI.reach t hs)
    split at hr
    · rename_i result u hp
      cases hr
      rw [hp] at hkept
      refine ⟨hkept.1, (h.besides_next hnext).leave, hkept.2, by simp [leave], ⟨a, ha⟩, fun q => ?_⟩
      by_cases hq : q = place
      · subst hq
        exact ⟨fun hbusy => absurd hbusy not_busy_leave, fun hand => absurd rfl hand.2⟩
      · exact ⟨fun hbusy => ⟨(busy_set hq).1 hbusy, hq⟩, fun hand => (busy_set hq).2 hand.1⟩
    · cases hr
  · cases hr

theorem Sound.advance?_waiting (h : c.Sound I P) (hI : Timeless I) (hs : I s)
    (hr : c.advance? limit s = some (none, c', s')) : Same I P c c' s' := by
  obtain ⟨⟨t, who, agenda⟩, hnext, hr⟩ := Option.bind_eq_some_iff.1 hr
  dsimp only at hr
  split at hr
  · rename_i a ha
    have hwho : who < c.places.size := (Array.getElem?_eq_some_iff.1 ha).1
    have hkept := (h.always who a ha).proceed (hI.reach t hs)
    split at hr
    · cases hr
    · rename_i t' rest u hp
      cases hr
      rw [hp] at hkept
      refine ⟨(h.besides_next hnext).wait hwho t' hkept.1, hkept.2, by simp [wait], fun q => ?_⟩
      by_cases hq : q = who
      · subst hq
        exact ⟨fun _ => ⟨a, ha⟩, fun _ => busy_wait hwho⟩
      · exact busy_set hq
  · cases hr

theorem Sound.next_some (h : c.Sound I P) (hI : Timeless I) (hs : I s)
    (hr : c.next limit s = (some (place, r), c', s')) : P place r ∧ Left I P c place c' s' := by
  -- along the calls: nobody comes, somebody comes to an end, or somebody waits again
  fun_induction next limit c s with
  | case1 => cases hr
  | case2 c s x c₁ s₁ ha =>
    cases hr
    exact h.advance?_ended hI hs ha
  | case3 c s c₁ s₁ ha ih =>
    have hsame := h.advance?_waiting hI hs ha
    obtain ⟨hp, hleft⟩ := ih hsame.sound hsame.world hr
    refine ⟨hp, hleft.sound, hleft.world, hleft.size.trans hsame.size,
      (hsame.busy place).1 hleft.was, fun q => ?_⟩
    rw [hleft.busy q, hsame.busy q]

theorem Sound.next_same (h : c.Sound I P) (hI : Timeless I) (hs : I s)
    (hr : c.next limit s = (none, c', s')) : Same I P c c' s' := by
  fun_induction next limit c s with
  | case1 c s ha =>
    cases hr
    exact ⟨h, hs, rfl, fun _ => Iff.rfl⟩
  | case2 => cases hr
  | case3 c s c₁ s₁ ha ih =>
    have hsame := h.advance?_waiting hI hs ha
    have hsame' := ih hsame.sound hsame.world hr
    exact ⟨hsame'.sound, hsame'.world, hsame'.size.trans hsame.size,
      fun q => (hsame'.busy q).trans (hsame.busy q)⟩

/-- **When nobody comes to an end any more, nobody is busy.** -/
theorem Sound.next_none (h : c.Sound I P) (hI : Timeless I) (hs : I s)
    (hr : c.next none s = (none, c', s')) (q : Nat) : ¬c.Busy q := by
  fun_induction next none c s with
  | case1 c s ha => exact h.advance?_none ha q
  | case2 => cases hr
  | case3 c s c₁ s₁ ha ih =>
    have hsame := h.advance?_waiting hI hs ha
    exact fun hbusy => ih hsame.sound hsame.world hr ((hsame.busy q).2 hbusy)

/-- **Every activity of a crew comes to its end once**, and the world stays as it should be. -/
theorem Sound.finish (h : c.Sound I P) (hI : Timeless I) (hs : I s) :
    (∀ x ∈ (c.finish s).1, P x.1 x.2) ∧ ((c.finish s).1.map Prod.fst).Nodup ∧
      (∀ q, q ∈ (c.finish s).1.map Prod.fst ↔ c.Busy q) ∧ I (c.finish s).2 := by
  -- whoever comes to an end is not busy any more, so it is not among the others
  fun_induction Crew.finish c s with
  | case1 c s r rest s₁ hnext others s₂ hrest ih =>
    obtain ⟨place, r⟩ := r
    obtain ⟨hp, hleft⟩ := h.next_some hI hs hnext
    obtain ⟨hall, hnodup, hbusy, hworld⟩ := ih hleft.sound hleft.world
    rw [hrest] at hall hnodup hbusy hworld
    refine ⟨fun x hx => ?_, ?_, fun q => ?_, hworld⟩
    · rcases List.mem_cons.1 hx with rfl | hx
      · exact hp
      · exact hall x hx
    · refine List.nodup_cons.2 ⟨fun hmem => ?_, hnodup⟩
      exact ((hleft.busy place).1 ((hbusy place).1 hmem)).2 rfl
    · rw [List.map_cons, List.mem_cons, hbusy q, hleft.busy q]
      constructor
      · rintro (rfl | hand)
        · exact hleft.was
        · exact hand.1
      · intro hq
        by_cases heq : q = place
        · exact .inl heq
        · exact .inr ⟨hq, heq⟩
  | case2 c s c₁ s₁ hnext =>
    have hsame := h.next_same hI hs hnext
    refine ⟨fun x hx => absurd hx List.not_mem_nil, List.nodup_nil, fun q => ?_, hsame.world⟩
    exact ⟨fun hq => absurd hq List.not_mem_nil, fun hq => absurd hq (h.next_none hI hs hnext q)⟩

/-! ## Crews of activities that all begin now -/

omit [Clocked σ] in
theorem not_busy_ofSize (n q : Nat) : ¬(ofSize n : Crew σ α).Busy q := by
  rintro ⟨a, ha⟩
  simp only [ofSize, Array.getElem?_replicate] at ha
  split at ha
  · cases ha
  · cases ha

omit [Clocked σ] in
theorem sound_ofSize (n : Nat) : (ofSize n : Crew σ α).Sound I P where
  nodup := List.nodup_nil
  busy q := ⟨fun hq => absurd hq List.not_mem_nil, fun hq => absurd hq (not_busy_ofSize n q)⟩
  always q a ha := absurd ⟨a, ha⟩ (not_busy_ofSize n q)

omit [Clocked σ] in
theorem Sound.start (h : c.Sound I P) (hplace : place < c.places.size) (hfree : ¬c.Busy place)
    {a : Activity σ α} (ha : a.Always I (P place)) : (c.start place a).Sound I P :=
  (h.besides hfree).wait hplace 0 ha

omit [Clocked σ] in
theorem busy_start {a : Activity σ α} (hplace : place < c.places.size) {q : Nat} :
    (c.start place a).Busy q ↔ q = place ∨ c.Busy q := by
  by_cases hq : q = place
  · subst hq
    exact ⟨fun _ => .inl rfl, fun _ => busy_wait hplace⟩
  · exact (busy_set hq).trans ⟨.inr, fun hor => hor.resolve_left hq⟩

omit [Clocked σ] in
/-- Activities begin one after the other, each at the next place. -/
theorem sound_foldl (as : List (Activity σ α)) :
    ∀ (k : Nat) (c : Crew σ α), c.Sound I P → (∀ q, c.Busy q ↔ q < k) →
      k + as.length ≤ c.places.size →
      (∀ (i : Nat) (a : Activity σ α), as[i]? = some a → a.Always I (P (k + i))) →
      ((as.zipIdx k).foldl (fun c a => c.start a.2 a.1) c).Sound I P ∧
        ∀ q, ((as.zipIdx k).foldl (fun c a => c.start a.2 a.1) c).Busy q ↔ q < k + as.length := by
  induction as with
  | nil => exact fun k c h hbusy _ _ => ⟨h, hbusy⟩
  | cons a as ih =>
    intro k c h hbusy hsize halways
    rw [List.length_cons] at hsize
    have hk : k < c.places.size := by omega
    have hfree : ¬c.Busy k := fun hb => Nat.lt_irrefl k ((hbusy k).1 hb)
    have ha : a.Always I (P k) := halways 0 a rfl
    -- the places up to this one are taken, the others are free
    have hstart := h.start hk hfree ha
    rw [List.zipIdx_cons, List.foldl_cons, List.length_cons]
    have hih := ih (k + 1) (c.start k a) hstart
      (fun q => by rw [busy_start hk, hbusy q]; omega)
      (by simp only [Crew.start, Crew.wait, Array.size_setIfInBounds]; omega)
      (fun i b hb => by
        have hnext := halways (i + 1) b hb
        rwa [show k + (i + 1) = k + 1 + i by omega] at hnext)
    rwa [show k + 1 + as.length = k + (as.length + 1) by omega] at hih

omit [Clocked σ] in
theorem sound_ofList {as : List (Activity σ α)}
    (halways : ∀ (i : Nat) (a : Activity σ α), as[i]? = some a → a.Always I (P i)) :
    (ofList as).Sound I P ∧ ∀ q, (ofList as).Busy q ↔ q < as.length := by
  have hfold := sound_foldl as 0 (ofSize as.length) (sound_ofSize (I := I) (P := P) _)
    (fun q => ⟨fun hq => absurd hq (not_busy_ofSize _ q), fun hq => absurd hq (Nat.not_lt_zero q)⟩)
    (by simp [ofSize]) (fun i a ha => by rw [Nat.zero_add]; exact halways i a ha)
  rwa [Nat.zero_add] at hfold

/-- **All activities of a list come to their ends**, each once. -/
theorem finish_ofList {as : List (Activity σ α)} (hI : Timeless I) (hs : I s)
    (halways : ∀ (i : Nat) (a : Activity σ α), as[i]? = some a → a.Always I (P i)) :
    (∀ x ∈ ((ofList as).finish s).1, P x.1 x.2) ∧
      (((ofList as).finish s).1.map Prod.fst).Perm (List.range as.length) ∧
      I ((ofList as).finish s).2 := by
  obtain ⟨hsound, hbusy⟩ := sound_ofList halways
  obtain ⟨hall, hnodup, hmem, hworld⟩ := hsound.finish hI hs
  refine ⟨hall, ?_, hworld⟩
  -- each place is there once, and those that are there were busy
  rw [List.perm_ext_iff_of_nodup hnodup List.nodup_range]
  intro q
  rw [hmem q, hbusy q, List.mem_range]

end Crew

end ChainIndex
