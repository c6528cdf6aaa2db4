import ChainIndex.Pool
import Mathlib.Algebra.GroupWithZero.Nat
import Mathlib.Data.List.Basic
import Mathlib.Data.List.Perm.Basic

/-!
# A worker pool handles each item once

Whatever order the moves come in, an item is in one place at a time: it waits in the queue, a worker
handles it, or it was handled (`Sound.accounted`).

* `Stepped`: **all that a move can do**.
* `Sound.after`: what no sequence of moves breaks.
* `exists_worker_move`: the workers only stop to wait for an item, so that a closed pool is emptied.
* `work_step`: each move leaves less to do, whichever it is.
* `handles_each_item_once`: all of it, for any moves. It is where one sees that finishing a pool waits
  for every item.
* `handleAll_spec`: the items that a pool is given are handled.
-/

namespace ChainIndex.Pool

variable {α : Type} {p q : Pool α} {m : Move α}

/-! ## All that a move can do -/

/-- What becomes of a pool, one case for each move. -/
inductive Stepped (p : Pool α) : Move α → Pool α → Prop where
  | submit (item : α) (hopen : p.isOpen = true) (hroom : p.queue.length < p.capacity) :
      Stepped p (.submit item)
        { p with queue := p.queue ++ [item], accepted := p.accepted ++ [item] }
  | lock (place : Nat) (hworker : p.workers[place]? = some .waiting) (hfree : p.isLocked = false) :
      Stepped p (.lock place) (p.put place .receiving)
  | take (place : Nat) (item : α) (rest : List α) (hworker : p.workers[place]? = some .receiving)
      (hqueue : p.queue = item :: rest) :
      Stepped p (.take place)
        { p.put place (.handling item) with queue := rest, started := p.started ++ [item] }
  | complete (place : Nat) (item : α) (hworker : p.workers[place]? = some (.handling item)) :
      Stepped p (.complete place) { p.put place .waiting with handled := p.handled ++ [item] }
  | close (hopen : p.isOpen = true) : Stepped p .close { p with isOpen := false }
  | leave (place : Nat) (hworker : p.workers[place]? = some .receiving) (hqueue : p.queue = [])
      (hclosed : p.isOpen = false) :
      Stepped p (.leave place) (p.put place .gone)

theorem stepped_of_step (h : p.step? m = some q) : Stepped p m q := by
  cases m with
  | submit item =>
    simp only [step?, Bool.and_eq_true, decide_eq_true_eq] at h
    split at h
    · rename_i hcan
      cases h
      exact .submit item hcan.1 hcan.2
    · cases h
  | lock place =>
    simp only [step?] at h
    split at h
    · rename_i hworker
      split at h
      · cases h
      · rename_i hfree
        cases h
        exact .lock place hworker (Bool.eq_false_iff.2 hfree)
    · cases h
  | take place =>
    simp only [step?] at h
    split at h
    · rename_i item rest hworker hqueue
      cases h
      exact .take place item rest hworker hqueue
    · cases h
  | complete place =>
    simp only [step?] at h
    split at h
    · rename_i item hworker
      cases h
      exact .complete place item hworker
    · cases h
  | close =>
    simp only [step?] at h
    split at h
    · rename_i hopen
      cases h
      exact .close hopen
    · cases h
  | leave place =>
    simp only [step?] at h
    split at h
    · rename_i hworker hqueue
      split at h
      · cases h
      · rename_i hclosed
        cases h
        exact .leave place hworker hqueue (Bool.eq_false_iff.2 hclosed)
    · cases h

theorem Stepped.step (h : Stepped p m q) : p.step? m = some q := by
  cases h <;> simp_all [step?]

/-! ## One worker at a time -/

/-- A worker who does something else leaves the others where they are. -/
theorem workers_put {place : Nat} {w : Worker α} (h : p.workers[place]? = some w) :
    ∃ before after, p.workers = before ++ w :: after ∧
      ∀ v, (p.put place v).workers = before ++ v :: after := by
  obtain ⟨hlt, hw⟩ := List.getElem?_eq_some_iff.1 h
  refine ⟨p.workers.take place, p.workers.drop (place + 1), ?_, fun v => ?_⟩
  · rw [← hw, List.getElem_cons_drop, List.take_append_drop]
  · rw [put, List.set_eq_take_append_cons_drop, if_pos hlt]

theorem length_workers_step (h : Stepped p m q) : q.workers.length = p.workers.length := by
  cases h <;> simp [put]

theorem capacity_step (h : Stepped p m q) : q.capacity = p.capacity := by
  cases h <;> rfl

theorem accepted_step (h : Stepped p m q) : q.accepted = p.accepted ++ m.submitted := by
  cases h <;> simp [put, Move.submitted]

theorem count_running_put [DecidableEq α] {place : Nat} {w : Worker α}
    (h : p.workers[place]? = some w) (v : Worker α) (a : α) :
    (p.put place v).running.count a + w.items.count a = p.running.count a + v.items.count a := by
  obtain ⟨before, after, hworkers, hput⟩ := workers_put h
  rw [running, running, hput, hworkers]
  simp only [List.flatMap_append, List.flatMap_cons, List.count_append]
  omega

/-- A worker handles one item at a time. -/
theorem length_running_le (p : Pool α) : p.running.length ≤ p.workers.length := by
  rw [running]
  induction p.workers with
  | nil => exact Nat.le_refl 0
  | cons w ws ih =>
    have hone : w.items.length ≤ 1 := by cases w <;> simp [Worker.items]
    rw [List.flatMap_cons, List.length_append, List.length_cons]
    omega

/-! ## What no move breaks -/

/-- What holds of a pool however it got where it is. -/
structure Sound (p : Pool α) : Prop where
  /-- An item waits, is being handled, or was handled. -/
  accounted : p.accepted.Perm (p.queue ++ p.running ++ p.handled)
  inOrder : p.accepted = p.started ++ p.queue
  bounded : p.queue.length ≤ p.capacity
  /-- A worker leaves only when no item will come. -/
  stays : .gone ∈ p.workers → p.isOpen = false ∧ p.queue = []

theorem mem_workers_put {place : Nat} {v w : Worker α} (h : w ∈ (p.put place v).workers) :
    w ∈ p.workers ∨ w = v :=
  List.mem_or_eq_of_mem_set h

theorem sound_start (workers capacity : Nat) : (start workers capacity : Pool α).Sound where
  accounted := by
    have hrunning : (start workers capacity : Pool α).running = [] := by
      rw [running, List.flatMap_eq_nil_iff]
      intro w hw
      rw [List.eq_of_mem_replicate hw]
      rfl
    rw [hrunning]
    exact List.Perm.refl _
  inOrder := rfl
  bounded := Nat.zero_le _
  stays h := by cases List.eq_of_mem_replicate h

theorem Sound.step (hp : p.Sound) (h : Stepped p m q) : q.Sound := by
  classical
  have haccounted := List.perm_iff_count.1 hp.accounted
  cases h with
  | submit item hopen hroom =>
    refine ⟨List.perm_iff_count.2 fun a => ?_, ?_, ?_, fun hgone => ?_⟩
    · have ha := haccounted a
      simp only [List.count_append] at ha ⊢
      show _ = _ + p.running.count a + _
      omega
    · show p.accepted ++ [item] = p.started ++ (p.queue ++ [item])
      rw [hp.inOrder, List.append_assoc]
    · rw [List.length_append]
      exact hroom
    · have hclosed := (hp.stays hgone).1
      rw [hopen] at hclosed
      cases hclosed
  | lock place hworker hfree =>
    refine ⟨List.perm_iff_count.2 fun a => ?_, hp.inOrder, hp.bounded, fun hgone => ?_⟩
    · have ha := haccounted a
      have hput := count_running_put hworker .receiving a
      simp only [List.count_append, Worker.items, List.count_nil] at ha hput ⊢
      show p.accepted.count a = p.queue.count a + _ + p.handled.count a
      omega
    · exact hp.stays ((mem_workers_put hgone).resolve_right nofun)
  | take place item rest hworker hqueue =>
    refine ⟨List.perm_iff_count.2 fun a => ?_, ?_, ?_, fun hgone => ?_⟩
    · have ha := haccounted a
      have hput := count_running_put hworker (.handling item) a
      simp only [hqueue, List.count_append, List.count_cons, Worker.items, List.count_nil]
        at ha hput ⊢
      show p.accepted.count a =
        rest.count a + (p.put place (.handling item)).running.count a + p.handled.count a
      omega
    · show p.accepted = p.started ++ [item] ++ rest
      rw [hp.inOrder, hqueue, List.append_assoc]
      rfl
    · have hbounded := hp.bounded
      rw [hqueue, List.length_cons] at hbounded
      exact Nat.le_of_succ_le hbounded
    · have hempty := (hp.stays ((mem_workers_put hgone).resolve_right nofun)).2
      rw [hqueue] at hempty
      cases hempty
  | complete place item hworker =>
    refine ⟨List.perm_iff_count.2 fun a => ?_, hp.inOrder, hp.bounded, fun hgone => ?_⟩
    · have ha := haccounted a
      have hput := count_running_put hworker .waiting a
      simp only [List.count_append, Worker.items, List.count_nil] at ha hput ⊢
      show p.accepted.count a =
        p.queue.count a + (p.put place .waiting).running.count a + (p.handled.count a + _)
      omega
    · exact hp.stays ((mem_workers_put hgone).resolve_right nofun)
  | close hopen =>
    exact ⟨hp.accounted, hp.inOrder, hp.bounded, fun hgone => ⟨rfl, (hp.stays hgone).2⟩⟩
  | leave place hworker hqueue hclosed =>
    refine ⟨List.perm_iff_count.2 fun a => ?_, hp.inOrder, hp.bounded, fun _ => ⟨hclosed, hqueue⟩⟩
    have ha := haccounted a
    have hput := count_running_put hworker .gone a
    simp only [List.count_append, Worker.items, List.count_nil] at ha hput ⊢
    show p.accepted.count a = p.queue.count a + _ + p.handled.count a
    omega

/-- When all workers have left there is nothing left. -/
theorem Sound.finished (hp : p.Sound) (hworkers : p.workers ≠ []) (h : p.isFinished = true) :
    p.queue = [] ∧ p.running = [] ∧ p.handled.Perm p.accepted := by
  have hgone : ∀ w ∈ p.workers, w = .gone := by
    intro w hw
    have hall := List.all_eq_true.1 (Bool.and_eq_true_iff.1 h).2 w hw
    cases w <;> first | rfl | cases hall
  have hqueue : p.queue = [] := by
    obtain ⟨w, hw⟩ := List.exists_mem_of_ne_nil _ hworkers
    exact (hp.stays (hgone w hw ▸ hw)).2
  have hrunning : p.running = [] := by
    rw [running, List.flatMap_eq_nil_iff]
    intro w hw
    rw [hgone w hw]
    rfl
  have haccounted := hp.accounted
  rw [hqueue, hrunning] at haccounted
  exact ⟨hqueue, hrunning, haccounted.symm⟩

/-! ## Somebody goes on -/

/-- **The workers only stop to wait for an item**: if there is one, or if none will come, one of them
can go on until they have left. -/
theorem exists_worker_move (h : p.isOpen = false ∨ p.queue ≠ [])
    (hleft : p.workers.all Worker.isGone = false) :
    ∃ m q, Stepped p m q ∧ m.submitted = [] ∧ m ≠ .close := by
  by_cases hlocked : p.isLocked = true
  · obtain ⟨w, hw, hreceiving⟩ := List.any_eq_true.1 hlocked
    obtain ⟨place, hplace⟩ := List.mem_iff_getElem?.1 hw
    have hworker : p.workers[place]? = some .receiving := by
      cases w <;> first | exact hplace | cases hreceiving
    rcases hqueue : p.queue with _ | ⟨item, rest⟩
    · have hclosed := h.resolve_right fun hne => hne hqueue
      exact ⟨_, _, .leave place hworker hqueue hclosed, rfl, nofun⟩
    · exact ⟨_, _, .take place item rest hworker hqueue, rfl, nofun⟩
  · obtain ⟨w, hw, hhere⟩ := List.all_eq_false.1 hleft
    obtain ⟨place, hplace⟩ := List.mem_iff_getElem?.1 hw
    cases w with
    | waiting => exact ⟨_, _, .lock place hplace (Bool.eq_false_iff.2 hlocked), rfl, nofun⟩
    | receiving => exact absurd (List.any_eq_true.2 ⟨_, hw, rfl⟩) hlocked
    | handling item => exact ⟨_, _, .complete place item hplace, rfl, nofun⟩
    | gone => exact absurd rfl hhere

namespace Worker

/-- The moves that a worker still makes when there is nothing in the queue. -/
def work : Worker α → Nat
  | waiting => 2
  | receiving => 1
  | handling _ => 3
  | gone => 0

end Worker

/-- The moves that are still made when nothing more is submitted. -/
def work (p : Pool α) : Nat :=
  3 * p.queue.length + (p.workers.map Worker.work).sum + p.isOpen.toNat

theorem work_put {place : Nat} {w : Worker α} (h : p.workers[place]? = some w) (v : Worker α) :
    ((p.put place v).workers.map Worker.work).sum + w.work =
      (p.workers.map Worker.work).sum + v.work := by
  obtain ⟨before, after, hworkers, hput⟩ := workers_put h
  rw [hput, hworkers]
  simp only [List.map_append, List.map_cons, List.sum_append, List.sum_cons]
  omega

/-- **Each move leaves less to do**: an item takes four moves, its submission among them. -/
theorem work_step (h : Stepped p m q) : q.work + 1 = p.work + 4 * m.submitted.length := by
  unfold work
  cases h with
  | submit item hopen hroom =>
    simp only [List.length_append, List.length_singleton, Move.submitted]
    omega
  | lock place hworker hfree =>
    have hput := work_put hworker .receiving
    simp only [Worker.work, Move.submitted, List.length_nil] at hput ⊢
    simp only [put] at hput ⊢
    omega
  | take place item rest hworker hqueue =>
    have hput := work_put hworker (.handling item)
    simp only [Worker.work, Move.submitted, List.length_nil, hqueue, List.length_cons] at hput ⊢
    simp only [put] at hput ⊢
    omega
  | complete place item hworker =>
    have hput := work_put hworker .waiting
    simp only [Worker.work, Move.submitted, List.length_nil] at hput ⊢
    simp only [put] at hput ⊢
    omega
  | close hopen =>
    rw [hopen]
    rfl
  | leave place hworker hqueue hclosed =>
    have hput := work_put hworker .gone
    simp only [Worker.work, Move.submitted, List.length_nil] at hput ⊢
    simp only [put] at hput ⊢
    omega

theorem work_start (workers capacity : Nat) :
    (start workers capacity : Pool α).work = 2 * max workers 1 + 1 := by
  simp only [work, start, List.length_nil, List.map_replicate, List.sum_replicate_nat, Worker.work,
    Bool.toNat_true]
  omega

/-! ## Any number of moves -/

/-- The pool after moves that are possible one after the other. -/
def after? (p : Pool α) : List (Move α) → Option (Pool α)
  | [] => some p
  | m :: ms => (p.step? m).bind fun q => q.after? ms

theorem after_cons {ms : List (Move α)} (h : p.after? (m :: ms) = some q) :
    ∃ r, Stepped p m r ∧ r.after? ms = some q := by
  obtain ⟨r, hr, hms⟩ := Option.bind_eq_some_iff.1 h
  exact ⟨r, stepped_of_step hr, hms⟩

theorem Sound.after (hp : p.Sound) {ms : List (Move α)} (h : p.after? ms = some q) : q.Sound := by
  induction ms generalizing p with
  | nil => cases h; exact hp
  | cons m ms ih =>
    obtain ⟨r, hr, hms⟩ := after_cons h
    exact ih (hp.step hr) hms

theorem shape_after {ms : List (Move α)} (h : p.after? ms = some q) :
    q.workers.length = p.workers.length ∧ q.capacity = p.capacity ∧
      q.accepted = p.accepted ++ ms.flatMap Move.submitted := by
  induction ms generalizing p with
  | nil => cases h; simp
  | cons m ms ih =>
    obtain ⟨r, hr, hms⟩ := after_cons h
    obtain ⟨hworkers, hcapacity, haccepted⟩ := ih hms
    rw [hworkers, hcapacity, haccepted, length_workers_step hr, capacity_step hr, accepted_step hr,
      List.append_assoc, List.flatMap_cons]
    exact ⟨rfl, rfl, rfl⟩

theorem work_after {ms : List (Move α)} (h : p.after? ms = some q) :
    q.work + ms.length = p.work + 4 * (ms.flatMap Move.submitted).length := by
  induction ms generalizing p with
  | nil => cases h; rfl
  | cons m ms ih =>
    obtain ⟨r, hr, hms⟩ := after_cons h
    have hstep := work_step hr
    have hrest := ih hms
    rw [List.flatMap_cons, List.length_append, List.length_cons]
    omega

theorem ne_nil_of_length {l : List (Worker α)} {n : Nat} (h : l.length = max n 1) : l ≠ [] := by
  rintro rfl
  rw [List.length_nil] at h
  omega

/-- **Each item is handled exactly once**, for any number of workers, any capacity and any order of
submissions, takings and completions. An item is in one place at a time, neither the workers nor the
queue take more than they can, and the items are started in the order in which they were accepted.
When the last worker has left, every item was handled; and that is where a closed pool gets: somebody
can go on until then, and the number of moves is bounded. -/
theorem handles_each_item_once (workers capacity : Nat) {ms : List (Move α)}
    (h : (start workers capacity).after? ms = some p) :
    p.accepted = ms.flatMap Move.submitted ∧
      p.accepted.Perm (p.queue ++ p.running ++ p.handled) ∧
      p.running.length ≤ max workers 1 ∧
      p.queue.length ≤ max capacity 1 ∧
      p.accepted = p.started ++ p.queue ∧
      (p.isFinished = true → p.queue = [] ∧ p.running = [] ∧ p.handled.Perm p.accepted) ∧
      (p.isOpen = false → p.isFinished = false → ∃ m q, p.step? m = some q) ∧
      ms.length ≤ 4 * p.accepted.length + 2 * max workers 1 + 1 := by
  have hsound := (sound_start workers capacity).after h
  obtain ⟨hworkers, hcapacity, haccepted⟩ := shape_after h
  have hlength : p.workers.length = max workers 1 := hworkers.trans List.length_replicate
  refine ⟨haccepted, hsound.accounted, ?_, ?_, hsound.inOrder, ?_, ?_, ?_⟩
  · exact hlength ▸ p.length_running_le
  · rw [show max capacity 1 = p.capacity from hcapacity.symm]
    exact hsound.bounded
  · exact hsound.finished (ne_nil_of_length hlength)
  · intro hclosed hunfinished
    have hleft : p.workers.all Worker.isGone = false := by
      rwa [isFinished, hclosed, Bool.not_false, Bool.true_and] at hunfinished
    obtain ⟨m, q, hstep, -, -⟩ := exists_worker_move (.inl hclosed) hleft
    exact ⟨m, q, hstep.step⟩
  · have hwork := work_after h
    have hstart : (start workers capacity : Pool α).accepted = [] := rfl
    rw [work_start] at hwork
    rw [haccepted, hstart, List.nil_append]
    omega

/-- Two workers and room for one item: the second item is done before the first. -/
theorem handles_each_item_once_two :
    let ms : List (Move Nat) := [.lock 0, .submit 7, .take 0, .lock 1, .submit 8, .close, .take 1,
      .complete 1, .complete 0, .lock 1, .leave 1, .lock 0, .leave 0]
    ∃ p, (start 2 0).after? ms = some p ∧ p.isFinished = true ∧ p.started = [7, 8] ∧
      p.handled = [8, 7] ∧ p.handled.Perm p.accepted := by
  intro ms
  let p : Pool Nat :=
    { workers := [.gone, .gone], capacity := 1, isOpen := false, accepted := [7, 8],
      started := [7, 8], handled := [8, 7] }
  have hp : (start 2 0).after? ms = some p := by decide
  have hfinished : p.isFinished = true := by decide
  exact ⟨p, hp, hfinished, rfl, rfl, ((handles_each_item_once 2 0 hp).2.2.2.2.2.1 hfinished).2.2⟩

/-! ## All items of a list -/

/-- A move of a worker is among the ones that are tried. -/
theorem mem_candidates {left : List α} (h : Stepped p m q) (hsubmit : m.submitted = [])
    (hclose : m ≠ .close) : m ∈ p.candidates left := by
  have hplace {place : Nat} {w : Worker α} (hw : p.workers[place]? = some w) :
      place < p.workers.length :=
    (List.getElem?_eq_some_iff.1 hw).1
  unfold candidates
  cases h with
  | submit item => cases hsubmit
  | lock place hworker => simp [hplace hworker]
  | take place item rest hworker => simp [hplace hworker]
  | complete place item hworker => simp [hplace hworker]
  | close => exact absurd rfl hclose
  | leave place hworker => simp [hplace hworker]

/-- A move that is tried submits the next item, if any, and closes the queue only after the last. -/
theorem of_mem_candidates {left : List α} (h : m ∈ p.candidates left) :
    m.submitted ++ left.drop m.submitted.length = left ∧ (m = .close → left = []) := by
  simp only [candidates, List.mem_append, List.mem_map, List.mem_range, Option.mem_toList,
    Option.map_eq_some_iff] at h
  rcases h with ((((⟨_, _, rfl⟩ | ⟨_, _, rfl⟩) | ⟨item, hitem, rfl⟩) | ⟨_, _, rfl⟩) | h) | ⟨_, _, rfl⟩
  · exact ⟨rfl, nofun⟩
  · exact ⟨rfl, nofun⟩
  · obtain ⟨rest, rfl⟩ := List.head?_eq_some_iff.1 hitem
    exact ⟨rfl, nofun⟩
  · exact ⟨rfl, nofun⟩
  · split at h
    · rename_i hnone
      rw [List.mem_singleton.1 h]
      exact ⟨rfl, fun _ => List.isEmpty_iff.1 hnone⟩
    · cases h
  · exact ⟨rfl, nofun⟩

theorem of_next {left : List α} (h : p.next? left = some (m, q)) :
    Stepped p m q ∧ m ∈ p.candidates left := by
  obtain ⟨m', hm, hsome⟩ := List.exists_of_findSome?_eq_some h
  obtain ⟨q', hq, heq⟩ := Option.map_eq_some_iff.1 hsome
  cases heq
  exact ⟨stepped_of_step hq, hm⟩

theorem next_ne_none {left : List α} (h : Stepped p m q) (hm : m ∈ p.candidates left) :
    p.next? left ≠ none := by
  intro hnone
  have hstep := List.findSome?_eq_none_iff.1 hnone m hm
  rw [h.step] at hstep
  cases hstep

/-- A pool that is still given these items, and closed after the last of them. -/
structure Fed (p : Pool α) (left : List α) : Prop where
  sound : p.Sound
  room : 0 < p.capacity
  staffed : p.workers ≠ []
  given : p.isOpen = true ∨ left = []

theorem fed_start (workers capacity : Nat) (items : List α) : (start workers capacity).Fed items where
  sound := sound_start workers capacity
  room := Nat.lt_of_lt_of_le Nat.zero_lt_one (Nat.le_max_right capacity 1)
  staffed := ne_nil_of_length List.length_replicate
  given := .inl rfl

theorem Fed.next {left : List α} (hp : p.Fed left) (h : p.next? left = some (m, q)) :
    q.Fed (left.drop m.submitted.length) := by
  obtain ⟨hstep, hm⟩ := of_next h
  refine ⟨hp.sound.step hstep, ?_, ?_, ?_⟩
  · rw [capacity_step hstep]
    exact hp.room
  · rw [← List.length_pos_iff, length_workers_step hstep, List.length_pos_iff]
    exact hp.staffed
  · rcases hp.given with hopen | rfl
    · cases hstep with
      | close => exact .inr ((of_mem_candidates hm).2 rfl)
      | leave place hworker hqueue hclosed => exact .inl hopen
      | submit | lock | take | complete => exact .inl hopen
    · exact .inr List.drop_nil

/-- One goes on until every item was submitted and every worker has left. -/
theorem Fed.finished {left : List α} (hp : p.Fed left) (h : p.next? left = none) :
    p.isFinished = true ∧ left = [] := by
  have hworkers (hgoing : p.isOpen = false ∨ p.queue ≠ []) : p.workers.all Worker.isGone = true := by
    by_contra hleft
    obtain ⟨m, q, hstep, hsubmit, hclose⟩ := exists_worker_move hgoing (Bool.eq_false_iff.2 hleft)
    exact next_ne_none hstep (mem_candidates hstep hsubmit hclose) h
  by_cases hopen : p.isOpen = true
  · exfalso
    rcases left with _ | ⟨item, left⟩
    · exact next_ne_none (.close hopen) (by simp [candidates]) h
    · by_cases hroom : p.queue.length < p.capacity
      · exact next_ne_none (.submit item hopen hroom) (by simp [candidates]) h
      · have hqueue : p.queue ≠ [] := by
          intro hnone
          rw [hnone] at hroom
          exact hroom hp.room
        -- the queue is full, and no worker has left while it is open
        obtain ⟨w, hw⟩ := List.exists_mem_of_ne_nil _ hp.staffed
        have hgone := List.all_eq_true.1 (hworkers (.inr hqueue)) w hw
        cases w with
        | gone => exact hqueue (hp.sound.stays hw).2
        | waiting | receiving | handling => cases hgone
  · rw [isFinished, Bool.eq_false_iff.2 hopen, hworkers (.inl (Bool.eq_false_iff.2 hopen))]
    exact ⟨rfl, hp.given.resolve_left hopen⟩

/-- How a pool stands after it was given these items. -/
structure Emptied (p : Pool α) (left : List α) (peak : Nat) (r : Pool α × Nat) : Prop where
  finished : r.1.isFinished = true
  sound : r.1.Sound
  staffed : r.1.workers ≠ []
  accepted : r.1.accepted = p.accepted ++ left
  peak_le : r.2 ≤ max peak p.workers.length

theorem Fed.emptied {left : List α} (hp : p.Fed left) (h : p.next? left = none) (peak : Nat) :
    Emptied p left peak (p, peak) := by
  obtain ⟨hfinished, rfl⟩ := hp.finished h
  exact ⟨hfinished, hp.sound, hp.staffed, (List.append_nil _).symm, Nat.le_max_left _ _⟩

theorem Emptied.before {left : List α} {peak : Nat} {r : Pool α × Nat} (hstep : Stepped p m q)
    (hm : m ∈ p.candidates left)
    (h : Emptied q (left.drop m.submitted.length) (max peak q.running.length) r) :
    Emptied p left peak r := by
  have hworkers := length_workers_step hstep
  refine ⟨h.finished, h.sound, h.staffed, ?_, ?_⟩
  · rw [h.accepted, accepted_step hstep, List.append_assoc, (of_mem_candidates hm).1]
  · have hrunning := q.length_running_le
    have hpeak := h.peak_le
    omega

theorem Fed.run (moves : Nat) {left : List α} (peak : Nat) (hp : p.Fed left)
    (hwork : p.work + 4 * left.length ≤ moves) : Emptied p left peak (run moves p left peak) := by
  induction moves generalizing p left peak with
  | zero =>
    rcases hnext : p.next? left with _ | ⟨m, q⟩
    · exact hp.emptied hnext peak
    · have hless := work_step (of_next hnext).1
      have hleft := congrArg List.length (of_mem_candidates (of_next hnext).2).1
      rw [List.length_append] at hleft
      omega
  | succ moves ih =>
    rcases hnext : p.next? left with _ | ⟨m, q⟩
    · rw [Pool.run, hnext]
      exact hp.emptied hnext peak
    · obtain ⟨hstep, hm⟩ := of_next hnext
      have hless := work_step hstep
      have hleft := congrArg List.length (of_mem_candidates hm).1
      rw [List.length_append] at hleft
      rw [Pool.run, hnext]
      exact (ih _ (hp.next hnext) (by omega)).before hstep hm

/-- **All items of a list are handled**, each once, by no more workers than there are. -/
theorem handleAll_spec (workers capacity : Nat) (items : List α) :
    (handleAll workers capacity items).1.isFinished = true ∧
      (handleAll workers capacity items).1.started = items ∧
      (handleAll workers capacity items).1.handled.Perm items ∧
      (handleAll workers capacity items).2 ≤ max workers 1 := by
  have hwork : (start workers capacity : Pool α).work + 4 * items.length ≤
      4 * items.length + 2 * max workers 1 + 1 := by
    rw [work_start]
    omega
  have hemptied : Emptied (start workers capacity) items 0 (handleAll workers capacity items) :=
    (fed_start workers capacity items).run _ 0 hwork
  generalize handleAll workers capacity items = r at hemptied ⊢
  obtain ⟨hqueue, -, hhandled⟩ := hemptied.sound.finished hemptied.staffed hemptied.finished
  have haccepted : r.1.accepted = items := hemptied.accepted
  have hstarted := hemptied.sound.inOrder
  have hpeak := hemptied.peak_le
  rw [hqueue, List.append_nil] at hstarted
  rw [start, List.length_replicate, Nat.zero_max] at hpeak
  exact ⟨hemptied.finished, hstarted.symm.trans haccepted, haccepted ▸ hhandled, hpeak⟩

end ChainIndex.Pool
