import ChainIndex.Chain.Range
import ChainIndex.Metric
import ChainIndex.Node.Answer
import ChainIndex.Node.BlockSet
import ChainIndex.Node.Bucket
import ChainIndex.Node.Cache
import ChainIndex.Node.Request
import ChainIndex.Node.Retry
import ChainIndex.Query
import ChainIndex.Text.Quoted

/-!
# Asking a node

Every request takes the same way: it waits for a token of its endpoint, is sent with the time that
the caller has left, and is repeated after a pause if its failure may pass. The two endpoints of a
node, one for the chain and one for accounts, have buckets of their own.

* `Client.send`: one request with its repetitions.
* `Client.block`, `Client.blocks`, `Client.search`, `Client.searchAll`: questions about the chain.
* `Client.reward`, `Client.balance`, `Client.delegations`: questions about accounts.
-/

namespace ChainIndex

structure ClientConfig where
  version : ChainVersion := default
  requestsPerSecond : Nat := 33
  blockTimeout : Span := Clock.ofSeconds 30
  searchTimeout : Span := Clock.ofSeconds 30
  accountTimeout : Span := Clock.ofSeconds 30
  retry : Retry := {}
  cacheCapacity : Nat := 400
deriving DecidableEq, Repr

/-- The two addresses under which a node is asked. -/
inductive Endpoint where
  | chain
  | account
deriving DecidableEq, Repr

/-- What changes while a client is at work, with the numbers `τ` that its buckets count in and the
state `ν` of the node. -/
structure Session (τ ν : Type) where
  now : Instant := 0
  chainBucket : Bucket τ
  accountBucket : Bucket τ
  cache : BlockCache
  /-- What was recorded, the newest first. -/
  journal : List Metric := []
  node : ν

/-- How an exchange with a node went, and when it was over. -/
structure Exchange where
  outcome : Except NodeError Reply
  finished : Instant

/-- A client, and how the node behind it answers. A request reaches the node at once; others may do
so before its reply is back. -/
structure Client (ν : Type) where
  config : ClientConfig := {}
  transport : Request → Instant → ν → Exchange × ν
  /-- What the reader of answers says of a body that is none to this request. -/
  notAnswer : Request → String → String := fun _ _ => ""

/-- Something a client does, which may fail and changes the session either way. -/
abbrev Asking (τ ν α : Type) := ExceptT NodeError (Activity (Session τ ν)) α

namespace Session

variable {τ ν : Type}

instance : Clocked (Session τ ν) where
  now := Session.now
  goTo now s := { s with now }
  now_goTo _ _ := rfl

def bucket (e : Endpoint) (s : Session τ ν) : Bucket τ :=
  match e with
  | .chain => s.chainBucket
  | .account => s.accountBucket

def withBucket (e : Endpoint) (b : Bucket τ) (s : Session τ ν) : Session τ ν :=
  match e with
  | .chain => { s with chainBucket := b }
  | .account => { s with accountBucket := b }

def record (s : Session τ ν) (m : Metric) : Session τ ν :=
  { s with journal := m :: s.journal }

/-- A session that starts with full buckets and an empty cache. -/
def start [Quantity τ] (c : ClientConfig) (node : ν) : Session τ ν :=
  let bucket := Bucket.full (.perSecond c.requestsPerSecond) 0
  { chainBucket := bucket, accountBucket := bucket, cache := .ofCapacity c.cacheCapacity, node }

end Session

/-- The denomination of balances that arrive as bare numbers. -/
def stakingDenom : String := "uluna"

namespace Client

variable {τ ν : Type} [Quantity τ]

/-- Waits for a token of an endpoint. -/
def takeToken (e : Endpoint) (deadline : Deadline) : Asking τ ν Unit := do
  let granted ← ExceptT.lift (Bucket.acquire (Session.bucket e) (Session.withBucket e) deadline)
  if !granted then throw .cancelled

/-- A reply whose status does not mean failure. -/
def checked (r : Reply) : Except NodeError Reply :=
  if r.status < 400 then .ok r else .error (.status r.status (Answer.errorText r.body))

/-- The status to record for an outcome. -/
def statusOf : Except NodeError Reply → Nat
  | .ok r => r.status
  | .error e => e.statusCode

/-- One attempt: its outcome is recorded, whatever it is. -/
def attempt (c : Client ν) (e : Endpoint) (label : String) (r : Request) (deadline : Deadline) :
    Asking τ ν (Except NodeError Reply) := do
  takeToken e deadline
  let s ← get
  let some timeout := Clock.remaining? r.timeout deadline s.now | throw .cancelled
  let (exchange, node) := c.transport { r with timeout } s.now s.node
  set { s with node }
  ExceptT.lift (Activity.await exchange.finished)
  let outcome := exchange.outcome.bind checked
  modify (·.record (.request label (statusOf outcome)))
  return outcome

/-- Pauses before the next attempt, unless the deadline comes first. -/
def pause (wait : Span) (deadline : Deadline) : Asking τ ν Unit := do
  let s ← get
  if Clock.isPast deadline (s.now + wait) then throw .cancelled
  ExceptT.lift (Activity.await (Clock.after s.now wait))

/-- Attempts after `made` others. The first of them may be repeated `left` times. -/
def sendAfter (c : Client ν) (e : Endpoint) (label : String) (r : Request) (deadline : Deadline)
    (made : Nat) : Nat → Asking τ ν Reply
  | 0 => do
    let outcome ← c.attempt e label r deadline
    outcome
  | left + 1 => do
    match ← c.attempt e label r deadline with
    | .ok reply => return reply
    | .error error =>
      if !error.isTransient then throw error
      pause (c.config.retry.step * (made + 1)) deadline
      sendAfter c e label r deadline (made + 1) left

/-- A request with its repetitions. -/
def send (c : Client ν) (e : Endpoint) (label : String) (r : Request) (deadline : Deadline) :
    Asking τ ν Reply :=
  c.sendAfter e label r deadline 0 (c.config.retry.attempts - 1)

/-- A question about the chain. -/
def askChain {α : Type} (c : Client ν) (read : Json → Option α) (r : Request)
    (deadline : Deadline) : Asking τ ν α := do
  let reply ← c.send .chain r.path r deadline
  Answer.result read reply.body (c.notAnswer r reply.body)

/-- A question about an account, now or at a height. The label stands for the path of any account. -/
def askAccount {α : Type} (c : Client ν) (read : Json → Option α) (label path : String)
    (height : Height) (deadline : Deadline) : Asking τ ν α := do
  let r : Request := { path, timeout := c.config.accountTimeout }
  let r := if 0 < height then r.withQuery "height" (toString height) else r
  let reply ← c.send .account label r deadline
  Answer.value read reply.body (c.notAnswer r reply.body)

/-- A number that arrived as text. -/
def numberOf (field text : String) : Except NodeError UInt64 :=
  match Text.word64? text with
  | some n => .ok n
  | none => .error (.unusable s!"{field} {Text.quoted text}")

/-- A block from its header. -/
def blockOf (hash : String) (h : Answer.Header) (transactionCount : UInt64) :
    Except NodeError Block := do
  let some time := Time.ofRfc3339? h.time
    | throw (.unusable s!"block time {Text.quoted h.time}")
  let height ← numberOf "height" h.height
  return { hash, height, time, chainId := h.chainId, transactionCount }

/-- A block of an answer about many; where the number of its transactions stands depends on the
generation of the chain. -/
def blockOfMeta (version : ChainVersion) (m : Answer.Meta) : Except NodeError Block := do
  let count := if version.countInHeader then m.header.count else m.count
  let n ← numberOf "num_txs" (count.getD "0")
  blockOf m.hash m.header n

/-- The block at a height, or the newest one for height zero. Cached blocks are not asked for
again. -/
def block (c : Client ν) (height : Height) (deadline : Deadline) : Asking τ ν Block := do
  if 0 < height then
    let cached := (← get).cache.get? height
    modify (·.record (.cacheLookup cached.isSome))
    if let some b := cached then return b
  let r : Request := { path := "/block", timeout := c.config.blockTimeout }
  let r := if 0 < height then r.withQuery "height" (toString height) else r
  let a ← c.askChain Answer.OneBlock.shape.read r deadline
  let b ← blockOf a.anyHash a.body.header (UInt64.ofNat a.body.transactions.length)
  modify fun s => { s with cache := (s.cache.add b).2 }
  return b

/-- The request for the blocks of a range. Bounds of zero are left open, and so is the limit. -/
def rangeRequest (c : Client ν) (range : HeightRange) (limit : UInt64) : Request :=
  let bound (name : String) (n : UInt64) (r : Request) :=
    if 0 < n then r.withQuery name (toString n) else r
  bound "limit" limit <| bound "maxHeight" range.last <| bound "minHeight" range.first
    { path := "/blockchain", timeout := c.config.blockTimeout }

/-- The blocks of a range, as many as the node has on one page. All of them have to be usable. -/
def blocks (c : Client ν) (range : HeightRange) (limit : UInt64) (deadline : Deadline) :
    Asking τ ν (List Block) := do
  let metas ← c.askChain Answer.metas.read (c.rangeRequest range limit) deadline
  let bs ← (metas.mapM (blockOfMeta c.config.version) : Except NodeError _)
  modify fun s => { s with cache := s.cache.offer bs }
  return bs

/-- Merges the blocks of a range into a set. -/
def gather (c : Client ν) (range : HeightRange) (limit : UInt64) (set : BlockSet)
    (deadline : Deadline) : Asking τ ν BlockSet := do
  return set.extend (← c.blocks range limit deadline)

def searchRequest (c : Client ν) (p : SearchPage) : Request where
  path := "/tx_search"
  query := [("query", s!"\"tx.height={p.height}\""), ("page", toString p.page),
    ("per_page", toString p.perPage)]
  timeout := c.config.searchTimeout

/-- One page of the transactions of a height, and how many there are on all pages. -/
def searchCounted (c : Client ν) (p : SearchPage) (deadline : Deadline) :
    Asking τ ν (List RawTransaction × UInt64) := do
  let found ← c.askChain Answer.Found.shape.read (c.searchRequest p) deadline
  let total ← if found.total.isEmpty then pure (UInt64.ofNat found.transactions.length)
    else (numberOf "total_count" found.total : Except NodeError _)
  modify (·.record (.items total "transaction"))
  return (found.transactions, total)

/-- One page of the transactions of a height. -/
def search (c : Client ν) (p : SearchPage) (deadline : Deadline) :
    Asking τ ν (List RawTransaction) := do
  return (← c.searchCounted p deadline).1

/-- The transactions of a height from a page on, after those that are there. -/
def searchFrom (c : Client ν) (p : SearchPage) (deadline : Deadline)
    (received : List RawTransaction) : Nat → Asking τ ν (List RawTransaction)
  | 0 => return received
  | pages + 1 => do
    let (batch, total) ← c.searchCounted p deadline
    let received := received ++ batch
    if batch.isEmpty || total.toNat ≤ received.length then return received
    searchFrom c { p with page := p.page + 1 } deadline received pages

/-- All transactions of a height, page after page, until as many are there as the node reports or a
page is empty. -/
def searchAll (c : Client ν) (height : Height) (perPage : UInt32) (deadline : Deadline) :
    Asking τ ν (List RawTransaction) :=
  c.searchFrom { height, page := 1, perPage := max perPage 1 } deadline [] (UInt32.size - 1)

/-- An amount in an answer. -/
def usable {α : Type} (a : Except Amount.Error α) : Except NodeError α :=
  a.mapError fun e => .unusable e.message

def coinAmount (c : Coin) : Except NodeError Amount :=
  usable (Amount.parse c.amount c.denom)

def reward (c : Client ν) (q : AccountQuery) (deadline : Deadline) : Asking τ ν Reward := do
  let coins ← c.askAccount Answer.rewards.read "/distribution/delegators/_/rewards"
    s!"/distribution/delegators/{q.account}/rewards" q.height deadline
  let rewards ← usable (coins.mapM fun x => Amount.parseFixed x.amount x.denom)
  return { height := q.height, account := q.account, rewards }

def balance (c : Client ν) (q : AccountQuery) (deadline : Deadline) : Asking τ ν Balance := do
  let coins ← c.askAccount Answer.balances.read "/bank/balances/_"
    s!"/bank/balances/{q.account}" q.height deadline
  let balances ← (coins.mapM coinAmount : Except NodeError _)
  return { height := q.height, account := q.account, balances }

/-- The balance of a delegation: in the oldest generation a bare number of the staking denomination,
later a coin. -/
def readBalance : ChainVersion → Json → Option Coin
  | .columbus3, j => (Json.Codec.text.read j).map fun amount => { denom := stakingDenom, amount }
  | _, j => Answer.coin.read j

def delegationOf (d : Answer.Delegated) : Except NodeError Delegation := do
  let balance ← coinAmount d.balance
  let shares ← usable (Amount.parse d.shares "")
  return { delegator := d.delegator, validator := d.validator, shares, balance }

def delegations (c : Client ν) (q : AccountQuery) (deadline : Deadline) :
    Asking τ ν Delegations := do
  let all ← c.askAccount (Answer.delegations (readBalance c.config.version)).read
    "/staking/delegators/_/delegations" s!"/staking/delegators/{q.account}/delegations" q.height
    deadline
  let delegations ← (all.mapM delegationOf : Except NodeError _)
  return { height := q.height, account := q.account, delegations }

end Client

end ChainIndex
