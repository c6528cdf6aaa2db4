import ChainIndex.Decoder
import ChainIndex.Delivery.Search
import ChainIndex.Node.Error
import ChainIndex.Task.Response

/-!
# The delivery pipeline

The blocks of a range and their transactions on the way from the node to the receiver. A producer
passes on the blocks and queues the searches for their transactions; fetchers ask the node and queue
what they get; one decoder turns that into transactions; a forwarder hands everything over. All
queues are bounded, and who cannot go on waits. What may happen next is a move; moves come in any
order.

* `Pipeline.step?`: the pipeline after a move, if the move is possible.
* `Pipeline.work_lt`: every move leaves less to do, so no run goes on for ever.
* `Pipeline.run`: moves as somebody chooses them, until none is chosen.
-/

namespace ChainIndex

/-- What the producer has to do. -/
inductive Job where
  | pass (b : Block)
  | search (p : SearchPage)
deriving DecidableEq, Repr

/-- What a fetcher does. -/
inductive Fetch where
  | free
  | asking (p : SearchPage)
  /-- It has its answer and still has to queue this much of it. -/
  | handing (txs : List RawTransaction)
deriving DecidableEq, Repr

def Fetch.isFree : Fetch → Bool
  | .free => true
  | .asking _ | .handing _ => false

def Fetch.isHanding : Fetch → Bool
  | .handing _ => true
  | .free | .asking _ => false

/-- The room in the three queues. -/
structure Capacities where
  searches : Nat := 10
  raw : Nat := 20
  out : Nat := 201
deriving DecidableEq, Repr

structure Pipeline where
  /-- What each fetcher does. -/
  fetchers : List Fetch
  capacities : Capacities := {}
  /-- What the producer still has to do. -/
  plan : List Job := []
  /-- Searches that no fetcher has taken yet. -/
  searches : List SearchPage := []
  /-- Transactions that are not decoded yet. -/
  raw : List RawTransaction := []
  /-- A decoded transaction for which there was no room yet. -/
  decoded : Option Transaction := none
  /-- Payloads that the forwarder has not taken yet. -/
  out : List Payload := []
  /-- Payloads that the forwarder took. -/
  delivered : List Payload := []
  /-- Searches that failed. -/
  failures : List (SearchPage × NodeError) := []
  /-- What was recorded while decoding. -/
  journal : List Metric := []
deriving Repr

namespace Pipeline

/-- The jobs for blocks: each is passed on before its transactions are searched for. -/
def jobs (bs : List Block) : List Job :=
  bs.flatMap fun b =>
    .pass b :: (SearchPage.ofHeight b.height b.transactionCount).map .search

/-- A pipeline that has everything before it. -/
def start (fetchers : Nat) (bs : List Block) : Pipeline :=
  { fetchers := List.replicate (max fetchers 1) .free, plan := jobs bs }

inductive Move where
  /-- The producer does its next job. -/
  | produce
  /-- The free fetcher at a place takes the oldest search. -/
  | take (place : Nat)
  /-- The fetcher at a place gets its answer. -/
  | answer (place : Nat) (reply : Except NodeError (List RawTransaction))
  /-- The fetcher at a place queues the next transaction of its answer, or is free again. -/
  | hand (place : Nat)
  | decode
  /-- The decoded transaction is passed on. -/
  | pass
  /-- The forwarder takes the oldest payload. -/
  | forward

/-- Whether another payload may be queued. -/
def hasRoom (p : Pipeline) : Bool :=
  p.out.length < p.capacities.out

/-- Whether another search may be queued. -/
def hasSearchRoom (p : Pipeline) : Bool :=
  p.searches.length < p.capacities.searches

/-- How many more transactions may be queued. -/
def rawRoom (p : Pipeline) : Nat :=
  p.capacities.raw - p.raw.length

/-- The pipeline after the fetcher at a place went over to something else. -/
def withFetcher (p : Pipeline) (place : Nat) (f : Fetch) : Pipeline :=
  { p with fetchers := p.fetchers.set place f }

variable (decoder : RawTransaction → Except DecodeError (Measured Transaction))

def step? (p : Pipeline) : Move → Option Pipeline
  | .produce =>
    match p.plan with
    | [] => none
    | .pass b :: rest =>
      if p.hasRoom then some { p with plan := rest, out := p.out ++ [.block b] } else none
    | .search s :: rest =>
      if p.hasSearchRoom then some { p with plan := rest, searches := p.searches ++ [s] } else none
  | .take place =>
    match p.searches, p.fetchers[place]? with
    | s :: rest, some .free => some { p.withFetcher place (.asking s) with searches := rest }
    | _, _ => none
  | .answer place reply =>
    match p.fetchers[place]?, reply with
    | some (.asking _), .ok txs => some (p.withFetcher place (.handing txs))
    | some (.asking s), .error e =>
      some { p.withFetcher place .free with failures := p.failures ++ [(s, e)] }
    | _, _ => none
  | .hand place =>
    match p.fetchers[place]? with
    | some (.handing []) => some (p.withFetcher place .free)
    | some (.handing (tx :: txs)) =>
      if 0 < p.rawRoom then some { p.withFetcher place (.handing txs) with raw := p.raw ++ [tx] }
      else none
    | _ => none
  | .decode =>
    match p.decoded, p.raw with
    | none, tx :: rest =>
      match decoder tx with
      | .ok t => some { p with raw := rest, decoded := some t.value, journal := p.journal ++ t.metrics }
      | .error _ => some { p with raw := rest }
    | _, _ => none
  | .pass =>
    match p.decoded with
    | none => none
    | some t =>
      if p.hasRoom then some { p with decoded := none, out := p.out ++ [.transaction t] } else none
  | .forward =>
    match p.out with
    | [] => none
    | x :: rest => some { p with out := rest, delivered := p.delivered ++ [x] }

/-- One pipeline comes from another by some move. -/
def Step (p q : Pipeline) : Prop :=
  ∃ m, p.step? decoder m = some q

/-- Nothing is left to do. -/
def isDone (p : Pipeline) : Bool :=
  p.plan.isEmpty && p.searches.isEmpty && p.fetchers.all Fetch.isFree && p.raw.isEmpty &&
    p.decoded.isNone && p.out.isEmpty

/-! ## What is left to do -/

/-- Answers that a job, or a fetcher, still waits for. -/
def Job.awaited : Job → Nat
  | .pass _ => 0
  | .search _ => 1

def Fetch.awaited : Fetch → Nat
  | .asking _ => 1
  | .free | .handing _ => 0

/-- Moves that a fetcher still needs once its answer is there, and the way of its transactions. -/
def Fetch.work : Fetch → Nat
  | .free => 0
  | .asking _ => 1
  | .handing txs => 4 * txs.length + 1

/-- The sum of a quantity over a list. -/
def total {α : Type} (f : α → Nat) : List α → Nat
  | [] => 0
  | x :: rest => f x + total f rest

/-- The answers that are still awaited, and the moves that are needed besides them. -/
def work (p : Pipeline) : Nat × Nat :=
  (total Job.awaited p.plan + p.searches.length + total Fetch.awaited p.fetchers,
    3 * p.plan.length + 2 * p.searches.length + total Fetch.work p.fetchers + 3 * p.raw.length +
      2 * p.decoded.toList.length + p.out.length)

theorem total_append {α : Type} (f : α → Nat) (xs ys : List α) :
    total f (xs ++ ys) = total f xs + total f ys := by
  induction xs with
  | nil => simp [total]
  | cons x xs ih => simp [total, ih, Nat.add_assoc]

theorem total_set {α : Type} (f : α → Nat) (xs : List α) (i : Nat) (a b : α)
    (h : xs[i]? = some a) : total f (xs.set i b) + f a = total f xs + f b := by
  induction xs generalizing i with
  | nil => simp at h
  | cons x xs ih =>
    cases i with
    | zero =>
      simp at h
      subst h
      simp only [List.set_cons_zero, total]
      omega
    | succ i =>
      simp only [List.getElem?_cons_succ] at h
      simp only [List.set_cons_succ, total]
      have := ih i h
      omega

/-- **Every move leaves less to do.** -/
theorem work_lt {p q : Pipeline} {m : Move} (h : p.step? decoder m = some q) :
    Prod.Lex (· < ·) (· < ·) q.work p.work := by
  cases m with
  | produce =>
    simp only [step?] at h
    split at h
    · simp at h
    · rename_i b rest hp
      split at h <;> simp at h
      subst h
      apply Prod.Lex.right'
      · simp [hp, total, Job.awaited]
      · simp only [hp, List.length_cons, List.length_append, List.length_nil]
        omega
    · rename_i s rest hp
      split at h <;> simp at h
      subst h
      apply Prod.Lex.right'
      · simp only [hp, total, Job.awaited, List.length_append,
          List.length_cons, List.length_nil]
        omega
      · simp only [hp, List.length_cons, List.length_append, List.length_nil]
        omega
  | take place =>
    simp only [step?] at h
    split at h
    · rename_i s rest hs hf
      simp at h
      subst h
      have ha := total_set Fetch.awaited p.fetchers place .free (.asking s) hf
      have hw := total_set Fetch.work p.fetchers place .free (.asking s) hf
      simp only [Fetch.awaited, Fetch.work] at ha hw
      apply Prod.Lex.right'
      · simp only [hs, withFetcher, List.length_cons]
        omega
      · simp only [hs, withFetcher, List.length_cons]
        omega
    · simp at h
  | answer place reply =>
    simp only [step?] at h
    split at h
    · rename_i s txs hf
      simp at h
      subst h
      apply Prod.Lex.left
      have := total_set Fetch.awaited p.fetchers place (.asking s) (.handing txs) hf
      simp only [Fetch.awaited] at this
      dsimp only [withFetcher]
      omega
    · rename_i s e hf
      simp at h
      subst h
      apply Prod.Lex.left
      have := total_set Fetch.awaited p.fetchers place (.asking s) .free hf
      simp only [Fetch.awaited] at this
      dsimp only [withFetcher]
      omega
    · simp at h
  | hand place =>
    simp only [step?] at h
    split at h
    · rename_i hf
      simp at h
      subst h
      have ha := total_set Fetch.awaited p.fetchers place (.handing []) .free hf
      have hw := total_set Fetch.work p.fetchers place (.handing []) .free hf
      simp only [Fetch.awaited, Fetch.work, List.length_nil] at ha hw
      apply Prod.Lex.right' <;> dsimp only [withFetcher] <;> omega
    · rename_i tx txs hf
      split at h <;> simp at h
      subst h
      have ha := total_set Fetch.awaited p.fetchers place (.handing (tx :: txs)) (.handing txs) hf
      have hw := total_set Fetch.work p.fetchers place (.handing (tx :: txs)) (.handing txs) hf
      simp only [Fetch.awaited, Fetch.work, List.length_cons] at ha hw
      apply Prod.Lex.right'
      · dsimp only [withFetcher]
        omega
      · simp only [withFetcher, List.length_append, List.length_cons, List.length_nil]
        omega
    · simp at h
  | decode =>
    simp only [step?] at h
    split at h
    · rename_i tx rest hd hr
      split at h <;>
        (simp at h; subst h; apply Prod.Lex.right' <;> simp [hd, hr] <;> omega)
    · simp at h
  | pass =>
    simp only [step?] at h
    split at h
    · simp at h
    · rename_i t hd
      split at h <;> simp at h
      subst h
      apply Prod.Lex.right'
      · simp
      · simp [hd]
        omega
  | forward =>
    simp only [step?] at h
    split at h
    · simp at h
    · rename_i x rest ho
      simp at h
      subst h
      apply Prod.Lex.right' <;> simp [ho]

/-- Makes moves as they are chosen, until none is chosen or a chosen one is not possible. -/
def run {σ : Type} (choose : Pipeline → StateM σ (Option Move)) (p : Pipeline) (s : σ) :
    Pipeline × σ :=
  match (choose p).run s with
  | (none, s) => (p, s)
  | (some m, s) =>
    match _h : p.step? decoder m with
    | none => (p, s)
    | some q => run choose q s
termination_by p.work
decreasing_by exact work_lt decoder _h

end Pipeline

end ChainIndex
