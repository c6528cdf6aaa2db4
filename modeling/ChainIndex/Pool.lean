/-!
# Worker pools

A fixed number of workers take items from a bounded queue. Submitting waits while the queue is full.
The workers share the queue under a lock: the one that holds it waits for the next item, and lets go
of it before it handles the item. Closing the queue refuses new items; a worker leaves when it finds
the closed queue empty. What may happen next is a move; the moves come in any order.

* `Pool.step?`: the pool after a move, if the move is possible.
* `Pool.isFinished`: the queue is closed and every worker has left.
* `Pool.handleAll`: all of a list of items is handled.
-/

namespace ChainIndex

/-- What a worker of a pool does. -/
inductive Pool.Worker (α : Type) where
  /-- It waits for the lock. -/
  | waiting
  /-- It holds the lock and waits for an item. -/
  | receiving
  | handling (item : α)
  | gone
deriving DecidableEq, Repr

structure Pool (α : Type) where
  workers : List (Pool.Worker α)
  capacity : Nat
  isOpen : Bool := true
  /-- The items that wait, the oldest first. -/
  queue : List α := []
  /-- The items that were ever submitted, in the order in which the queue took them. -/
  accepted : List α := []
  /-- The items that a worker took, in this order. -/
  started : List α := []
  /-- The items that were handled, in the order of their completion. -/
  handled : List α := []
deriving DecidableEq, Repr

namespace Pool

variable {α : Type}

namespace Worker

def isReceiving : Worker α → Bool
  | receiving => true
  | _ => false

def isGone : Worker α → Bool
  | gone => true
  | _ => false

/-- The item that is being handled, if any. -/
def items : Worker α → List α
  | handling item => [item]
  | _ => []

end Worker

/-- A pool with at least one worker and room for at least one item. -/
def start (workers capacity : Nat) : Pool α :=
  { workers := .replicate (max workers 1) .waiting, capacity := max capacity 1 }

/-- The items that are being handled. -/
def running (p : Pool α) : List α :=
  p.workers.flatMap Worker.items

/-- A worker holds the lock. -/
def isLocked (p : Pool α) : Bool :=
  p.workers.any Worker.isReceiving

/-- The queue is closed and every worker has left. -/
def isFinished (p : Pool α) : Bool :=
  !p.isOpen && p.workers.all Worker.isGone

def put (p : Pool α) (place : Nat) (worker : Worker α) : Pool α :=
  { p with workers := p.workers.set place worker }

/-- The workers are known by their places. -/
inductive Move (α : Type) where
  | submit (item : α)
  | lock (place : Nat)
  /-- The worker with the lock takes the oldest item. -/
  | take (place : Nat)
  | complete (place : Nat)
  | close
  /-- The worker with the lock finds that no item will come. -/
  | leave (place : Nat)
deriving DecidableEq, Repr

def Move.submitted : Move α → List α
  | submit item => [item]
  | _ => []

def step? (p : Pool α) : Move α → Option (Pool α)
  | .submit item =>
    if p.isOpen && decide (p.queue.length < p.capacity) then
      some { p with queue := p.queue ++ [item], accepted := p.accepted ++ [item] }
    else none
  | .lock place =>
    match p.workers[place]? with
    | some .waiting => if p.isLocked then none else some (p.put place .receiving)
    | _ => none
  | .take place =>
    match p.workers[place]?, p.queue with
    | some .receiving, item :: rest =>
      some { p.put place (.handling item) with queue := rest, started := p.started ++ [item] }
    | _, _ => none
  | .complete place =>
    match p.workers[place]? with
    | some (.handling item) => some { p.put place .waiting with handled := p.handled ++ [item] }
    | _ => none
  | .close => if p.isOpen then some { p with isOpen := false } else none
  | .leave place =>
    match p.workers[place]?, p.queue with
    | some .receiving, [] => if p.isOpen then none else some (p.put place .gone)
    | _, _ => none

/-- The moves to try while these items are still to be submitted, the preferred ones first: nobody
waits without need, and all items take equally long. -/
def candidates (p : Pool α) (left : List α) : List (Move α) :=
  let places := List.range p.workers.length
  places.map .take ++ places.map .lock ++ (left.head?.map .submit).toList ++
    places.map .complete ++ (if left.isEmpty then [.close] else []) ++ places.map .leave

/-- The first of them that is possible, and the pool after it. -/
def next? (p : Pool α) (left : List α) : Option (Move α × Pool α) :=
  (p.candidates left).findSome? fun move => (p.step? move).map (move, ·)

/-- The pool after so many moves, and the most items that were handled at once. -/
def run : Nat → Pool α → List α → Nat → Pool α × Nat
  | 0, p, _, peak => (p, peak)
  | moves + 1, p, left, peak =>
    match p.next? left with
    | none => (p, peak)
    | some (move, q) =>
      run moves q (left.drop move.submitted.length) (max peak q.running.length)

/-- Handles all items. A move each submits an item, locks the queue for it, takes it and completes it;
then the queue is closed, and each worker locks it once more and leaves. -/
def handleAll (workers capacity : Nat) (items : List α) : Pool α × Nat :=
  run (4 * items.length + 2 * max workers 1 + 1) (start workers capacity) items 0

end Pool

end ChainIndex
