import ChainIndex.Delivery.Schedule
import ChainIndex.Node.BlockSet
import ChainIndex.Task.Error
import ChainIndex.Text.Blank

/-!
# Delivering ranges

A range is delivered one big page after the other. The blocks of a page are asked for in parts, all
at the same time; only when all of them are there are they passed on, together with their
transactions.

* `RangeFetcher.fetch`: a range of heights.
* `RangeFetcher.fetchLatest`: everything since a height.
-/

namespace ChainIndex

structure RangeConfig where
  /-- Heights on a big page. -/
  bigPage : UInt64 := 1000
  /-- The most heights that are caught up on. -/
  window : UInt64 := 10000
  fetchers : Nat := 5
deriving DecidableEq, Repr

/-- What was passed on, and how it ended. -/
structure Delivery where
  payloads : List Payload := []
  outcome : Except WorkerError Unit := .ok ()
  /-- What was recorded while decoding. -/
  journal : List Metric := []

structure RangeFetcher (σ : Type) where
  source : Source σ
  decoder : Decoder := {}
  config : RangeConfig := {}
  /-- Whether anybody takes the payloads. -/
  isOpen : Bool := true

/-- The first height of the newest ones: the last one that is known, or the start of the window
before the head if that is later or nothing is known. -/
def startingHeight (last window head : Height) : Height :=
  if last = 0 ∨ window.toNat < head.toNat - last.toNat then
    UInt64.ofNat (head.toNat - window.toNat)
  else last

namespace RangeFetcher

variable {σ : Type} [Clocked σ] (f : RangeFetcher σ)

/-- Heights that a node gives at once. -/
def partSize : UInt64 := 20

/-- Asks for parts of a range, all at once; the replies come in the order of their arrival. -/
def askParts (parts : List HeightRange) (deadline : Deadline) :
    StateM σ (List (Except NodeError (List Block))) := fun world =>
  let crew := Crew.ofList (parts.map fun part => f.source.blocks part 0 deadline)
  let (replies, world) := crew.finish world
  (replies.map Prod.snd, world)

/-- Merges the blocks of all replies, unless one of them is an error. -/
def merge (set : BlockSet) (replies : List (Except NodeError (List Block))) :
    Except WorkerError BlockSet :=
  let errors := replies.filterMap fun
    | .error e => some e.message
    | .ok _ => none
  if errors.isEmpty then
    .ok (replies.foldl (fun set r => set.extend (r.toOption.getD [])) set)
  else .error (.incomplete .blocks errors)

/-- Adds the blocks of a range. -/
def gather (range : HeightRange) (set : BlockSet) (deadline : Deadline) :
    StateM σ (Except WorkerError BlockSet) := do
  return merge set (← f.askParts (range.split partSize) deadline)

/-- A transaction of one of the fetched blocks, or of an unknown one. -/
def decodeWith (set : BlockSet) (raw : RawTransaction) :
    Except DecodeError (Measured Transaction) :=
  match (Text.word64? (Text.trimmed raw.height)).bind set.get? with
  | some b => f.decoder.decodeIn b raw
  | none => f.decoder.decode raw

/-- What a failed search is reported as. -/
def failureText (failure : SearchPage × NodeError) : String :=
  s!"height {failure.1.height} page {failure.1.page}: {failure.2.message}"

/-- What a finished pipeline delivered. -/
def deliveryOf (p : Pipeline) : Delivery where
  payloads := p.delivered
  outcome :=
    if p.failures.isEmpty then .ok ()
    else .error (.incomplete .transactions (p.failures.map failureText))
  journal := p.journal

/-- Passes on blocks and their transactions. -/
def stream (selected : List Block) (set : BlockSet) (deadline : Deadline) :
    StateM σ Delivery := do
  if !f.isOpen && !selected.isEmpty then return { outcome := .error (.sink .outputClosed) }
  return deliveryOf
    (← Pipeline.deliver f.source (f.decodeWith set) f.config.fetchers selected deadline)

/-- One page of a range. -/
def fetchPage (range : HeightRange) (deadline : Deadline) : StateM σ Delivery := do
  match ← f.gather range {} deadline with
  | .error e => return { outcome := .error e }
  | .ok set => f.stream set.blocks set deadline

/-- One page after the other, up to the first one that fails. -/
def fetchPages (deadline : Deadline) : List HeightRange → StateM σ Delivery
  | [] => return {}
  | page :: rest => do
    let d ← f.fetchPage page deadline
    match d.outcome with
    | .error _ => return d
    | .ok () =>
      let others ← fetchPages deadline rest
      return { others with
        payloads := d.payloads ++ others.payloads, journal := d.journal ++ others.journal }

/-- A range of heights. -/
def fetch (range : HeightRange) (deadline : Deadline) : StateM σ Delivery :=
  f.fetchPages deadline (range.split f.config.bigPage)

/-- Everything since the last height that is known. The newest blocks tell where the chain ends; what
lies before them is asked for as well. -/
def fetchLatest (q : LatestQuery) (deadline : Deadline) : StateM σ Delivery := do
  match ← (f.source.blocks {} partSize deadline).run with
  | .error e => return { outcome := .error (.node e) }
  | .ok newest =>
    let set := ({} : BlockSet).extend newest
    if set.isEmpty then return {}
    let first := max (startingHeight q.lastHeight f.config.window set.highest) 1
    let gathered ← if first < set.lowest then
        f.gather { first, last := set.lowest - 1 } set deadline
      else pure (.ok set)
    match gathered with
    | .error e => return { outcome := .error e }
    | .ok set => f.stream (set.blocks.filter fun b => first ≤ b.height) set deadline

end RangeFetcher

end ChainIndex
