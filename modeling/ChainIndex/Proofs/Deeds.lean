import ChainIndex.Indexer
import ChainIndex.Proofs.PipelineMoves
import Mathlib.Data.List.Basic

/-!
# Deeds

To store a height is to do one thing after the other: the node is asked for the block and for pages of
transactions, the store is called. What is to be done is a plan, what was done are deeds. A plan is
pursued up to its end, or up to a deed that fails (`Pursued`).

Deeds lead from one state of a source and a store to another (`Happened`). What a program does is said for
a store and at the same time for that store with notes (`Does`), so that the notes show which calls
were made; programs that are put together do the deeds of their parts (`Does.bind`, `Does.seq`).
-/

namespace ChainIndex

/-- What a store is asked for. -/
inductive StoreCall where
  | blocks (bs : List Block)
  | transactions (ts : List Transaction)
  | confirm (bs : List Block)

namespace Store

variable {κ : Type} (s : Store κ)

def perform : StoreCall → κ → Except StoreError Unit × κ
  | .blocks bs => s.putBlocks bs
  | .transactions ts => s.putTransactions ts
  | .confirm bs => s.confirm bs

/-- Does what it is asked for and notes it. -/
def note (c : StoreCall) (k : κ × List StoreCall) : Except StoreError Unit × κ × List StoreCall :=
  ((s.perform c k.1).1, (s.perform c k.1).2, k.2 ++ [c])

/-- The same store with notes of everything it is asked for. -/
def noting : Store (κ × List StoreCall) where
  putBlocks bs := s.note (.blocks bs)
  putTransactions ts := s.note (.transactions ts)
  confirm bs := s.note (.confirm bs)

end Store

/-! ## Deeds -/

/-- One thing to do for a height. -/
inductive Act where
  | fetch (height : Height)
  | search (page : SearchPage)
  | call (c : StoreCall)

namespace Act

def call? : Act → Option StoreCall
  | call c => some c
  | fetch _ | search _ => none

def page? : Act → Option SearchPage
  | search page => some page
  | fetch _ | call _ => none

end Act

/-- One thing that was done, and what came of it. -/
inductive Deed where
  | fetch (height : Height) (reply : Except NodeError Block)
  | search (page : SearchPage) (reply : SearchReply)
  | call (c : StoreCall) (outcome : Except StoreError Unit)

namespace Deed

def act : Deed → Act
  | fetch height _ => .fetch height
  | search page _ => .search page
  | call c _ => .call c

def call? (d : Deed) : Option StoreCall :=
  d.act.call?

def page? (d : Deed) : Option SearchPage :=
  d.act.page?

def error? : Deed → Option WorkerError
  | fetch _ (.error e) | search _ (.error e) => some (.node e)
  | call _ (.error e) => some (.store e)
  | fetch _ (.ok _) | search _ (.ok _) | call _ (.ok _) => none

/-- The transactions that a search has found. -/
def raws : Deed → List RawTransaction
  | search _ (.ok raws) => raws
  | search _ (.error _) | fetch _ _ | call _ _ => []

end Deed

variable {σ κ : Type} [Clocked σ]

/-- Deeds, one after the other, lead a source and a store from one state to another. -/
inductive Happened (source : Source σ) (s : Store κ) (deadline : Deadline) :
    List Deed → σ × κ → σ × κ → Prop where
  | nil {state : σ × κ} : Happened source s deadline [] state state
  | fetch {height : Height} {world : σ} {k : κ} {deeds : List Deed} {state : σ × κ}
    (rest : Happened source s deadline deeds
      (((source.block height deadline).run world).2, k) state) :
    Happened source s deadline
      (.fetch height ((source.block height deadline).run world).1 :: deeds) (world, k) state
  | search {page : SearchPage} {world : σ} {k : κ} {deeds : List Deed} {state : σ × κ}
    (rest : Happened source s deadline deeds
      (((source.search page deadline).run world).2, k) state) :
    Happened source s deadline
      (.search page ((source.search page deadline).run world).1 :: deeds) (world, k) state
  | call {c : StoreCall} {world : σ} {k : κ} {deeds : List Deed} {state : σ × κ}
    (rest : Happened source s deadline deeds (world, (s.perform c k).2) state) :
    Happened source s deadline (.call c (s.perform c k).1 :: deeds) (world, k) state

/-- A plan is followed up to its end, or up to a failure, which is then given. -/
inductive Pursued : List Act → List Deed → Option WorkerError → Prop where
  | done : Pursued [] [] none
  | failed {d : Deed} {e : WorkerError} (h : d.error? = some e) (left : List Act) :
    Pursued (d.act :: left) [d] (some e)
  | next {d : Deed} {plan : List Act} {deeds : List Deed} {failure? : Option WorkerError}
    (h : d.error? = none) (rest : Pursued plan deeds failure?) :
    Pursued (d.act :: plan) (d :: deeds) failure?

section Deeds

variable {source : Source σ} {s : Store κ} {deadline : Deadline} {deeds others : List Deed}
  {a b c : σ × κ}

theorem Happened.append (h : Happened source s deadline deeds a b)
    (h' : Happened source s deadline others b c) :
    Happened source s deadline (deeds ++ others) a c := by
  induction h with
  | nil => exact h'
  | fetch rest ih => exact .fetch (ih h')
  | search rest ih => exact .search (ih h')
  | call rest ih => exact .call (ih h')

end Deeds

namespace Pursued

variable {plan later : List Act} {deeds others : List Deed} {e : WorkerError}
  {failure? : Option WorkerError}

theorem append (h : Pursued plan deeds none) (h' : Pursued later others failure?) :
    Pursued (plan ++ later) (deeds ++ others) failure? := by
  generalize hnone : (none : Option WorkerError) = first at h
  induction h with
  | done => exact h'
  | failed => cases hnone
  | next h _ ih => exact .next h (ih hnone)

theorem append_failed (h : Pursued plan deeds (some e)) (later : List Act) :
    Pursued (plan ++ later) deeds (some e) := by
  generalize hsome : some e = first at h
  induction h with
  | done => cases hsome
  | failed h left => exact .failed h _
  | next h _ ih => exact .next h (ih hsome)

theorem acts_prefix (h : Pursued plan deeds failure?) : deeds.map Deed.act <+: plan := by
  induction h with
  | done => exact List.prefix_refl []
  | failed _ left => exact List.prefix_append [_] left
  | next _ _ ih => exact (List.prefix_cons_inj _).2 ih

/-- Without a failure everything was done, and nothing failed. -/
theorem none_iff (h : Pursued plan deeds failure?) :
    failure? = none ↔ ∀ d ∈ deeds, d.error? = none := by
  induction h with
  | done => simp
  | failed h left => simp [h]
  | next h _ ih => simp [h, ih]

theorem acts_eq (h : Pursued plan deeds none) : deeds.map Deed.act = plan := by
  generalize hnone : (none : Option WorkerError) = first at h
  induction h with
  | done => rfl
  | failed => cases hnone
  | next _ _ ih => rw [List.map_cons, ih hnone]

/-- Only the last deed may fail. -/
theorem error?_before (h : Pursued plan deeds failure?) {before after : List Deed} {d : Deed}
    (hsplit : deeds = before ++ d :: after) : ∀ x ∈ before, x.error? = none := by
  induction h generalizing before with
  | done => simp at hsplit
  | failed h left =>
    obtain ⟨rfl, -⟩ | ⟨_, rfl, hnil⟩ := List.cons_eq_append_iff.1 hsplit
    · exact fun x hx => absurd hx List.not_mem_nil
    · simp at hnil
  | next h _ ih =>
    obtain ⟨rfl, -⟩ | ⟨before, rfl, hrest⟩ := List.cons_eq_append_iff.1 hsplit
    · exact fun x hx => absurd hx List.not_mem_nil
    · rw [List.forall_mem_cons]
      exact ⟨h, ih hrest⟩

/-- A failure is that of the last deed. -/
theorem getLast?_eq (h : Pursued plan deeds (some e)) :
    ∃ d, deeds.getLast? = some d ∧ d.error? = some e := by
  generalize hsome : some e = first at h
  induction h with
  | done => cases hsome
  | failed h left => exact ⟨_, rfl, hsome ▸ h⟩
  | next h _ ih =>
    obtain ⟨d, hd, he⟩ := ih hsome
    exact ⟨d, by rw [List.getLast?_cons, hd]; rfl, he⟩

end Pursued

/-! ## What the parts of a program do -/

/-- The same work with a store that has taken notes. -/
def Work.withNotes {σ κ : Type} (w : Work σ κ) (notes : List StoreCall) :
    Work σ (κ × List StoreCall) :=
  { world := w.world, other := (w.other, notes), journal := w.journal }

namespace Indexer

namespace Storing

/-- The result of a program and what is around it then. -/
def ending {σ κ α : Type} (p : Storing σ κ α) (w : Work σ κ) : Except WorkerError α × Work σ κ :=
  Id.run (StateT.run (ExceptT.run p) w)

section Ending

variable {σ κ α β : Type} {p : Storing σ κ α} {f : α → Storing σ κ β} {w u : Work σ κ}

theorem ending_bind_ok {a : α} (h : p.ending w = (.ok a, u)) :
    (p >>= f).ending w = (f a).ending u := by
  unfold ending at *
  rw [ExceptT.run_bind, StateT.run_bind]
  simp only [Id.run_bind, h]

theorem ending_bind_error {e : WorkerError} (h : p.ending w = (.error e, u)) :
    (p >>= f).ending w = (.error e, u) := by
  unfold ending at *
  rw [ExceptT.run_bind, StateT.run_bind]
  simp only [Id.run_bind, h]
  rfl

theorem ending_ask [Clocked σ] (question : Activity σ (Except NodeError α)) (w : Work σ κ) :
    (ask question : Storing σ κ α).ending w =
      ((question.run w.world).1.mapError .node, { w with world := (question.run w.world).2 }) := by
  unfold ask
  refine (ending_bind_ok (u := w) rfl).trans ?_
  rcases question.run w.world with ⟨reply, world⟩
  refine (ending_bind_ok (u := { w with world }) rfl).trans ?_
  cases reply with
  | ok a => rfl
  | error e => rfl

theorem ending_keep (action : κ → Except StoreError Unit × κ) (w : Work σ κ) :
    (keep action : Storing σ κ Unit).ending w =
      ((action w.other).1.mapError .store, { w with other := (action w.other).2 }) := by
  unfold keep
  refine (ending_bind_ok (u := w) rfl).trans ?_
  rcases action w.other with ⟨outcome, other⟩
  refine (ending_bind_ok (u := { w with other }) rfl).trans ?_
  cases outcome with
  | ok a => rfl
  | error e => rfl

end Ending

/-- Two programs, one for a store and one for the same store with notes, do the same deeds, come to the
same result, and the notes are the calls among the deeds. -/
structure Performs (source : Source σ) (s : Store κ) (deadline : Deadline) {α : Type}
    (p : Storing σ κ α) (q : Storing σ (κ × List StoreCall) α) (w : Work σ κ) (deeds : List Deed)
    (result : Except WorkerError α) (w' : Work σ κ) : Prop where
  ending_eq : p.ending w = (result, w')
  happened : Happened source s deadline deeds (w.world, w.other) (w'.world, w'.other)
  noted (notes : List StoreCall) : q.ending (w.withNotes notes) =
    (result, w'.withNotes (notes ++ deeds.filterMap Deed.call?))

/-- The failure in a result. -/
def failure? {α : Type} : Except WorkerError α → Option WorkerError
  | .ok _ => none
  | .error e => some e

/-- Whatever is around two such programs, their deeds and their result agree. -/
def Does (source : Source σ) (s : Store κ) (deadline : Deadline) {α : Type} (p : Storing σ κ α)
    (q : Storing σ (κ × List StoreCall) α) (agree : List Deed → Except WorkerError α → Prop) : Prop :=
  ∀ w, ∃ deeds result w', Performs source s deadline p q w deeds result w' ∧ agree deeds result

theorem failure?_eq_none {α : Type} {result : Except WorkerError α} :
    failure? result = none ↔ ∃ a, result = .ok a := by
  cases result with
  | error e => exact ⟨nofun, nofun⟩
  | ok a => exact ⟨fun _ => ⟨a, rfl⟩, fun _ => rfl⟩

/-- A plan was carried out, up to its end or a failure; at its end stands a value. -/
def Concluded {α : Type} (plan : List Act) (value : List Deed → α) (deeds : List Deed)
    (result : Except WorkerError α) : Prop :=
  Pursued plan deeds (failure? result) ∧ ∀ a, result = .ok a → a = value deeds

theorem concluded_error {α : Type} {plan : List Act} {value : List Deed → α} {deeds : List Deed}
    {e : WorkerError} (h : Pursued plan deeds (some e)) : Concluded plan value deeds (.error e) :=
  ⟨h, nofun⟩

section Does

variable {source : Source σ} {s : Store κ} {deadline : Deadline} {α β : Type}
  {p : Storing σ κ α} {q : Storing σ (κ × List StoreCall) α}
  {f : α → Storing σ κ β} {g : α → Storing σ (κ × List StoreCall) β}
  {P : List Deed → Except WorkerError α → Prop} {Q : List Deed → Except WorkerError β → Prop}

theorem Does.bind (h : Does source s deadline p q P)
    (hok : ∀ deeds a, P deeds (.ok a) →
      Does source s deadline (f a) (g a) fun others result => Q (deeds ++ others) result)
    (herror : ∀ deeds e, P deeds (.error e) → Q deeds (.error e)) :
    Does source s deadline (p >>= f) (q >>= g) Q := by
  intro w
  obtain ⟨deeds, e | a, w₁, hp, hP⟩ := h w
  · refine ⟨deeds, .error e, w₁, ⟨ending_bind_error hp.ending_eq, hp.happened, fun notes => ?_⟩,
      herror deeds e hP⟩
    exact ending_bind_error (hp.noted notes)
  · obtain ⟨others, result, w', hf, hQ⟩ := hok deeds a hP w₁
    refine ⟨deeds ++ others, result, w', ⟨?_, hp.happened.append hf.happened, fun notes => ?_⟩, hQ⟩
    · rw [ending_bind_ok hp.ending_eq, hf.ending_eq]
    · rw [ending_bind_ok (hp.noted notes), hf.noted, List.filterMap_append, List.append_assoc]

theorem Does.imp (h : Does source s deadline p q P) {P' : List Deed → Except WorkerError α → Prop}
    (himp : ∀ deeds result, P deeds result → P' deeds result) : Does source s deadline p q P' := by
  intro w
  obtain ⟨deeds, result, w', hp, hP⟩ := h w
  exact ⟨deeds, result, w', hp, himp deeds result hP⟩

theorem does_pure {a : α} (h : P [] (.ok a)) : Does source s deadline (pure a) (pure a) P := by
  refine fun w => ⟨[], .ok a, w, ⟨rfl, .nil, fun notes => ?_⟩, h⟩
  rw [List.filterMap_nil, List.append_nil]
  rfl

theorem does_fetch (height : Height) :
    Does source s deadline (ask (source.block height deadline)) (ask (source.block height deadline))
      fun deeds result =>
        ∃ reply, deeds = [.fetch height reply] ∧ result = reply.mapError .node := by
  refine fun w => ⟨_, _, _, ⟨ending_ask _ w, .fetch .nil, fun notes => ?_⟩, _, rfl, rfl⟩
  rw [ending_ask, List.filterMap_cons_none rfl, List.filterMap_nil, List.append_nil]
  rfl

theorem does_search (page : SearchPage) :
    Does source s deadline (ask (source.search page deadline)) (ask (source.search page deadline))
      fun deeds result =>
        ∃ reply, deeds = [.search page reply] ∧ result = reply.mapError .node := by
  refine fun w => ⟨_, _, _, ⟨ending_ask _ w, .search .nil, fun notes => ?_⟩, _, rfl, rfl⟩
  rw [ending_ask, List.filterMap_cons_none rfl, List.filterMap_nil, List.append_nil]
  rfl

theorem does_call (c : StoreCall) :
    Does source s deadline (keep (s.perform c)) (keep (s.note c)) (Concluded [.call c] fun _ => ()) := by
  intro w
  refine ⟨[.call c (s.perform c w.other).1], _, _, ⟨ending_keep _ w, .call .nil, fun notes => ?_⟩,
    ?_, fun _ _ => rfl⟩
  · rw [ending_keep]
    rfl
  · cases (s.perform c w.other).1 with
    | error e => exact .failed (d := .call c (.error e)) rfl []
    | ok u => exact .next (d := .call c (.ok u)) rfl .done

theorem Does.seq {plan later : List Act} {a : α} {v : β}
    (h : Does source s deadline p q (Concluded plan fun _ => a))
    (h' : Does source s deadline (f a) (g a) (Concluded later fun _ => v)) :
    Does source s deadline (p >>= f) (q >>= g) (Concluded (plan ++ later) fun _ => v) := by
  refine h.bind ?_ ?_
  · rintro deeds a' ⟨hdeeds, ha⟩
    cases ha a' rfl
    exact h'.imp fun others result hothers => ⟨hdeeds.append hothers.1, hothers.2⟩
  · rintro deeds e ⟨hdeeds, -⟩
    exact concluded_error (hdeeds.append_failed later)

end Does

end Storing

end Indexer

end ChainIndex
