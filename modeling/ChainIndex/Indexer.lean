import ChainIndex.Delivery.Range
import ChainIndex.Store
import ChainIndex.Task.Request
import ChainIndex.Task.Responses

/-!
# Carrying out tasks

A task is a question to the source, whose result is sent as responses. Whatever happens, it ends with
one final response, unless the sink refuses that.

* `Indexer.perform`: the result of a task.
* `Indexer.respond`: its responses.
* `Indexer.storeHeight`: fetches, stores and confirms one height.
-/

namespace ChainIndex

/-- The kinds of tasks. -/
inductive TaskType where
  | transactions
  | latest
  | latestMark
  | reward
  | balance
  | delegations
deriving DecidableEq, Repr

namespace TaskType

def label : TaskType → String
  | transactions => "GetTransactions"
  | latest => "GetLatest"
  | latestMark => "GetLatestMark"
  | reward => "GetReward"
  | balance => "GetAccountBalance"
  | delegations => "GetAccountDelegations"

def all : List TaskType :=
  [transactions, latest, latestMark, reward, balance, delegations]

def ofLabel? (name : String) : Option TaskType :=
  all.find? fun t => t.label == name

end TaskType

/-- The result of a task before it is sent. -/
inductive TaskResult where
  | many (d : Delivery)
  | one (p : Payload)
  /-- A payload that is the only response. -/
  | only (p : Payload)
  | failed (message : String)

/-- What was recorded while the result came about. -/
def TaskResult.journal : TaskResult → List Metric
  | many d => d.journal
  | _ => []

structure Indexer (σ : Type) where
  source : Source σ
  decoder : Decoder := {}
  config : RangeConfig := {}
  timeout : Span := Clock.ofSeconds 300
  /-- What the reader of payloads says of one that is not what its task needs. -/
  notPayload : TaskRequest → String := fun _ => ""

/-- The world around the indexer: the source, the other side, a sink or a store, and what was recorded,
the newest first. -/
structure Work (σ ρ : Type) where
  world : σ
  other : ρ
  journal : List Metric := []

namespace Indexer

variable {σ : Type} [Clocked σ] (x : Indexer σ)

/-- How long the question for the newest block may take. -/
def markTimeout : Span := Clock.ofSeconds 1

def fetcher : RangeFetcher σ :=
  { source := x.source, decoder := x.decoder, config := x.config }

/-- A question that has a payload as its answer. -/
def single {α : Type} (question : Activity σ (Except NodeError α)) (payload : α → Payload) :
    StateM σ TaskResult := do
  match ← question.run with
  | .ok a => return .one (payload a)
  | .error e => return .failed e.message

/-- The result of a task of a known type. -/
def performAs (r : TaskRequest) (deadline : Deadline) (t : TaskType) :
    StateM σ TaskResult := do
  let refused (e : RequestError) := TaskResult.failed (WorkerError.request e).message
  let reason := x.notPayload r
  match t with
  | .transactions =>
    match r.range reason with
    | .error e => return refused e
    | .ok range => return .many (← x.fetcher.fetch range deadline)
  | .latest =>
    match r.latest reason with
    | .error e => return refused e
    | .ok q => return .many (← x.fetcher.fetchLatest q deadline)
  | .latestMark =>
    match r.latest reason with
    | .error e => return refused e
    | .ok _ =>
      let deadline := Clocked.now (← get) + markTimeout
      match ← (x.source.block 0 (some deadline)).run with
      | .error e => return .failed s!"Error getting block data {e.message}"
      | .ok b =>
        return .only (.mark { lastHash := b.hash, lastHeight := b.height, lastTime := b.time })
  | .reward =>
    match r.account reason with
    | .error e => return refused e
    | .ok q => single (x.source.reward q deadline) .reward
  | .balance =>
    match r.account reason with
    | .error e => return refused e
    | .ok q => single (x.source.balance q deadline) .balance
  | .delegations =>
    match r.account reason with
    | .error e => return refused e
    | .ok q => single (x.source.delegations q deadline) .delegations

/-- The result of a task. -/
def perform (r : TaskRequest) : StateM σ TaskResult := do
  let deadline := Clocked.now (← get) + x.timeout
  match TaskType.ofLabel? r.type with
  | some t => x.performAs r (some deadline) t
  | none => return .failed s!"There is no such handler {r.type}"

/-- Sends a result. A failed task ends with its error even after the sink refused a payload. -/
def respond {ρ : Type} (k : Sink ρ) (s : Sending ρ) :
    TaskResult → Except SinkError Unit × Sending ρ
  | .failed message => s.fail k message
  | .only p => s.sendFinal k p
  | .one p =>
    match s.send k p with
    | (.ok (), s) => s.finish k
    | (.error e, s) => (.error e, s)
  | .many d =>
    let (sent, s) := s.sendAll k d.payloads
    match d.outcome, sent with
    | .error e, _ => s.fail k e.message
    | .ok (), .error e => (.error e, s)
    | .ok (), .ok () => s.finish k

/-- Carries out a task; an error means that the sink failed. -/
def handle {ρ : Type} (k : Sink ρ) (r : TaskRequest) : StateM (Work σ ρ) (Except SinkError Unit) :=
  fun w =>
    let (result, world) := x.perform r w.world
    let sending : Sending ρ :=
      { id := r.id, sink := w.other
        journal := result.journal ++ .taskReceived r.type :: w.journal }
    let (outcome, sending) := respond k sending result
    (outcome, { world, other := sending.sink, journal := sending.journal })

/-! ## Storing a height -/

/-- Something that is done with a source and a store. -/
abbrev Storing (σ κ α : Type) := ExceptT WorkerError (StateM (Work σ κ)) α

variable {κ : Type}

/-- Asks the source. -/
def ask {α : Type} (question : Activity σ (Except NodeError α)) : Storing σ κ α := do
  let w ← get
  let (reply, world) := question.run w.world
  set { w with world }
  (reply.mapError .node : Except WorkerError α)

/-- Lets the store do something. -/
def keep (action : κ → Except StoreError Unit × κ) : Storing σ κ Unit := do
  let w ← get
  let (outcome, other) := action w.other
  set { w with other }
  (outcome.mapError .store : Except WorkerError Unit)

/-- The transactions that can be decoded. -/
def decodeAll (decoder : RawTransaction → Except DecodeError (Measured Transaction)) :
    List RawTransaction → Storing σ κ (List Transaction)
  | [] => return []
  | raw :: rest => do
    match decoder raw with
    | .ok t =>
      modify fun w => { w with journal := t.metrics ++ w.journal }
      return t.value :: (← decodeAll decoder rest)
    | .error _ => decodeAll decoder rest

/-- The transactions on search pages, stamped with a block. -/
def searchPages (b : Block) (deadline : Deadline) :
    List SearchPage → Storing σ κ (List Transaction)
  | [] => return []
  | page :: rest => do
    let raws ← ask (x.source.search page deadline)
    let txs ← decodeAll (x.decoder.decodeIn b) raws
    return txs ++ (← searchPages b deadline rest)

/-- Fetches a block and its transactions, stores both and confirms the height. -/
def storeHeight (store : Option (Store κ)) (height : Height) :
    Storing σ κ (Block × List Transaction) := do
  let some store := store | throw (.store .absent)
  let deadline := some (Clocked.now (← get).world + x.timeout)
  let b ← ask (x.source.block height deadline)
  keep (store.putBlocks [b])
  let txs ← x.searchPages b deadline (SearchPage.ofHeight height b.transactionCount)
  if !txs.isEmpty then keep (store.putTransactions txs)
  keep (store.confirm [b])
  return (b, txs)

end Indexer

end ChainIndex
