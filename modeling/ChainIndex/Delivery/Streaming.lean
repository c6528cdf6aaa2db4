import ChainIndex.Delivery.Range
import ChainIndex.Task.Responses

/-!
# The parts of a streamed task

A task that streams blocks consists of parts that wait for one another: the producer, who passes on
the blocks and queues the searches; the workers, who share the queue of searches under a lock and
queue transactions; the decoder; and the forwarder, who sends to the sink and goes on taking payloads
after the sink has refused one. A queue is closed when nobody is left who could send to it. Who takes
from a queue leaves when that is closed and empty; the producer returns after the workers and the
decoder have left, and the forwarder leaves last. Then the task ends with one more response.

* `Streaming.Step`: one of the parts goes on. Searches and sinks may answer anything.
* `Streaming.Severed`: somebody is about to send to a queue from which nobody will take.
-/

namespace ChainIndex

/-- How far the producer has come. -/
inductive Streaming.Producer where
  /-- It passes on blocks and queues searches. -/
  | enqueuing
  /-- It has closed the queue of searches and waits for the workers to leave. -/
  | joining
  /-- It waits for the decoder to leave. -/
  | awaiting
  | returned (outcome : Except WorkerError Unit)

/-- What the forwarder does. -/
inductive Streaming.Forwarder where
  | receiving
  | holding (x : Payload)
  | gone

/-- A streamed task on its way. The workers are the fetchers of the pipeline. -/
structure Streaming (ρ : Type) where
  pipeline : Pipeline
  producer : Streaming.Producer := .enqueuing
  /-- The worker that holds the lock on the searches and waits for the next one. -/
  holder : Option Nat := none
  /-- The workers that have left. -/
  left : List Nat := []
  decoderLeft : Bool := false
  forwarder : Streaming.Forwarder := .receiving
  /-- Why the sink refused a payload. -/
  refused : Option SinkError := none
  sending : Sending ρ
  /-- How the task ended. -/
  outcome : Option (Except SinkError Unit) := none

namespace Streaming

variable {ρ : Type}

/-- A task that has everything before it. -/
def start (capacities : Capacities) (workers : Nat) (bs : List Block) (sending : Sending ρ) :
    Streaming ρ :=
  { pipeline := { Pipeline.start workers bs with capacities }, sending }

/-! ## Who can still send -/

/-- A worker is there and has nothing to do. -/
def Waits (s : Streaming ρ) (place : Nat) : Prop :=
  s.pipeline.fetchers[place]? = some .free ∧ place ∉ s.left

/-- Nobody can queue searches any more. -/
def SearchesClosed (s : Streaming ρ) : Prop :=
  s.producer ≠ .enqueuing

/-- Nobody can queue transactions any more: all workers have left. -/
def RawClosed (s : Streaming ρ) : Prop :=
  ∀ place < s.pipeline.fetchers.length, place ∈ s.left

/-- Nobody can queue payloads any more: the producer has returned and the decoder has left. -/
def OutClosed (s : Streaming ρ) : Prop :=
  (∃ outcome, s.producer = .returned outcome) ∧ s.decoderLeft = true

/-- Somebody has something to send, and nobody is left who could take it. -/
inductive Severed (s : Streaming ρ) : Prop where
  | search (page : SearchPage) (rest : List Job) (hproducer : s.producer = .enqueuing)
      (hplan : s.pipeline.plan = .search page :: rest) (hworkers : s.RawClosed)
  | block (b : Block) (rest : List Job) (hproducer : s.producer = .enqueuing)
      (hplan : s.pipeline.plan = .pass b :: rest) (hforwarder : s.forwarder = .gone)
  | raw (place : Nat) (tx : RawTransaction) (txs : List RawTransaction)
      (hhanding : s.pipeline.fetchers[place]? = some (.handing (tx :: txs)))
      (hdecoder : s.decoderLeft = true)
  | transaction (t : Transaction) (hdecoder : s.decoderLeft = false)
      (hdecoded : s.pipeline.decoded = some t) (hforwarder : s.forwarder = .gone)

/-! ## The steps -/

/-- Who makes a move of the pipeline is there and has nothing else to do. -/
def Allows (s : Streaming ρ) : Pipeline.Move → Prop
  | .produce => s.producer = .enqueuing
  | .take place => s.holder = some place
  | .answer _ _ | .hand _ => True
  | .decode | .pass => s.decoderLeft = false
  | .forward => s.forwarder = .receiving

/-- The task after a move of its pipeline. Who has taken a search lets go of the lock, and the
forwarder holds what it took. -/
def after (s : Streaming ρ) (m : Pipeline.Move) (q : Pipeline) : Streaming ρ :=
  match m with
  | .take _ => { s with pipeline := q, holder := none }
  | .forward =>
    { s with pipeline := q, forwarder := s.pipeline.out.head?.elim .receiving .holding }
  | _ => { s with pipeline := q }

variable (k : Sink ρ)

/-- The task after the sink has taken or refused a payload. -/
def afterSending (s : Streaming ρ) (r : Except SinkError Unit × Sending ρ) : Streaming ρ :=
  { s with
    forwarder := .receiving
    sending := r.2
    refused := match r.1 with
      | .ok () => s.refused
      | .error e => some e }

/-- The last response of a task, whose producer has returned such an outcome. -/
def closing (s : Streaming ρ) (outcome : Except WorkerError Unit) :
    Except SinkError Unit × Sending ρ :=
  match outcome, s.refused with
  | .error e, _ => s.sending.fail k e.message
  | .ok (), some e => (.error e, s.sending)
  | .ok (), none => s.sending.finish k

/-- One part of a task goes on. -/
inductive Step (decoder : RawTransaction → Except DecodeError (Measured Transaction)) :
    Streaming ρ → Streaming ρ → Prop where
  | move {s : Streaming ρ} (m : Pipeline.Move) (q : Pipeline) (hallowed : s.Allows m)
      (hq : s.pipeline.step? decoder m = some q) :
      Step decoder s (s.after m q)
  /-- The producer has done everything and closes the queue of searches. -/
  | close {s : Streaming ρ} (hproducer : s.producer = .enqueuing) (hplan : s.pipeline.plan = []) :
      Step decoder s { s with producer := .joining }
  | lock {s : Streaming ρ} (place : Nat) (hholder : s.holder = none) (hwaits : s.Waits place) :
      Step decoder s { s with holder := some place }
  | leave {s : Streaming ρ} (place : Nat) (hholder : s.holder = some place)
      (hwaits : s.Waits place) (hsearches : s.pipeline.searches = [])
      (hclosed : s.SearchesClosed) :
      Step decoder s { s with holder := none, left := place :: s.left }
  | join {s : Streaming ρ} (hproducer : s.producer = .joining) (hworkers : s.RawClosed) :
      Step decoder s { s with producer := .awaiting }
  /-- The decoder leaves. -/
  | settle {s : Streaming ρ} (hhere : s.decoderLeft = false) (hraw : s.pipeline.raw = [])
      (hdecoded : s.pipeline.decoded = none) (hclosed : s.RawClosed) :
      Step decoder s { s with decoderLeft := true }
  /-- The producer returns. -/
  | result {s : Streaming ρ} (hproducer : s.producer = .awaiting) (hdecoder : s.decoderLeft = true) :
      Step decoder s
        { s with producer := .returned (RangeFetcher.deliveryOf s.pipeline).outcome }
  | send {s : Streaming ρ} (x : Payload) (hforwarder : s.forwarder = .holding x)
      (hrefused : s.refused = none) :
      Step decoder s (s.afterSending (s.sending.send k x))
  | drop {s : Streaming ρ} (x : Payload) (e : SinkError) (hforwarder : s.forwarder = .holding x)
      (hrefused : s.refused = some e) :
      Step decoder s { s with forwarder := .receiving }
  /-- The forwarder leaves. -/
  | depart {s : Streaming ρ} (hforwarder : s.forwarder = .receiving) (hout : s.pipeline.out = [])
      (hclosed : s.OutClosed) :
      Step decoder s { s with forwarder := .gone }
  | conclude {s : Streaming ρ} (outcome : Except WorkerError Unit)
      (hproducer : s.producer = .returned outcome) (hforwarder : s.forwarder = .gone)
      (hgoing : s.outcome = none) :
      Step decoder s
        { s with outcome := some (s.closing k outcome).1, sending := (s.closing k outcome).2 }

end Streaming

end ChainIndex
