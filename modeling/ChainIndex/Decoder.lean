import ChainIndex.Log.Summary
import ChainIndex.Message.Registry
import ChainIndex.Metric
import ChainIndex.Text.Base64
import ChainIndex.Transaction

/-!
# Decoding transactions

A transaction is decoded from its bytes and its execution log. Each message becomes an event of its
own or is counted as unknown or broken; each log entry that no mapped message accounts for becomes an
event made from the log. Only gas and fees that cannot be read fail the whole transaction.

* `Decoder.decode`: a transaction with everything that can be told of it.
* `Decoder.decodeFee`, `Decoder.decodeEvents`: its parts, without a node.
-/

namespace ChainIndex

/-- Which encodings and kinds of messages are decoded. -/
structure Decoder where
  /-- The generation of the chain, which decides the encoding that is tried first. -/
  version : ChainVersion := default
  /-- Whether the other encoding is tried after it. -/
  fallback : Bool := true
  registry : Registry := .standard
  /-- What the reader of base64 says of a text that it refuses. -/
  notBase64 : String → String := fun _ => ""
  /-- What the reader of logs says of a text that it refuses. -/
  notLog : String → String := fun _ => ""

/-- Why a text holds no transaction. -/
inductive UnreadableTx where
  | notBase64 (reason : String)
  /-- Every encoding that was tried refused the bytes. -/
  | refused (first : Envelope.Error) (second : Option Envelope.Error)
deriving DecidableEq, Repr

def UnreadableTx.message : UnreadableTx → String
  | notBase64 reason => s!"transaction is not base64: {reason}"
  | refused first none => first.message
  | refused first (some second) => s!"{first.message}; {second.message}"

/-- Why a transaction is not decoded. -/
inductive DecodeError where
  | gas (field value : String)
  | fee (source : Amount.Error)
  | envelope (source : UnreadableTx)
  | log (reason : String)
deriving DecidableEq, Repr

def DecodeError.message : DecodeError → String
  | gas field value => s!"{field} '{value}' is not an unsigned integer"
  | fee source => s!"fee amount: {source.message}"
  | envelope source => s!"transaction not decodable: {source.message}"
  | log reason => s!"execution log: {reason}"

/-- A result with what was recorded on the way. -/
structure Measured (α : Type) where
  value : α
  metrics : List Metric := []
deriving Repr

/-- The fee as amounts. -/
def Envelope.feeAmounts (e : Envelope) : Except Amount.Error (List Amount) :=
  e.fee.mapM fun c => Amount.parse c.amount c.denom

/-- An event that stands for a failure. -/
def TransactionEvent.failure (module message : String) : TransactionEvent where
  kind := "error"
  sub := [{ Event.ofKind "error" module with error := some message }]

/-- An amount of gas, which may have blanks around it. -/
def gasOf (field value : String) : Except DecodeError UInt64 :=
  match Text.word64? (Text.trimmed value) with
  | some n => .ok n
  | none => .error (.gas field value)

namespace Decoder

/-- The envelope of a transaction in base64. -/
def envelope (d : Decoder) (tx : String) : Except UnreadableTx Envelope :=
  match Text.Base64.decode? (Text.trimmed tx) with
  | none => .error (.notBase64 (d.notBase64 (Text.trimmed tx)))
  | some bytes =>
    match Envelope.decode bytes d.version.primary with
    | .ok e => .ok e
    | .error first =>
      if d.fallback then
        (Envelope.decode bytes d.version.secondary).mapError fun second =>
          .refused first (some second)
      else .error (.refused first none)

/-- What becomes of the message with this number: its event, or the metric that counts its failure. -/
def message (d : Decoder) (encoding : Encoding) (log : List LogEntry) (index : Nat)
    (raw : RawMessage) : Except Metric TransactionEvent :=
  let m := Message.resolve raw
  match d.registry.map { encoding, log := Log.find log index } m with
  | .ok e => .ok { id := toString index, kind := e.primary, sub := [e] }
  | .error error =>
    let (type, route) := m.labels
    .error (if error.isUnknown then .unknownMessage type route else .brokenMessage type route)

/-- What becomes of each message. -/
def messages (d : Decoder) (e : Envelope) (log : List LogEntry) :
    List (Except Metric TransactionEvent) :=
  e.messages.zipIdx.map fun (raw, index) => d.message e.encoding log index raw

/-- The numbers of the messages that have an event. -/
def mapped (results : List (Except Metric TransactionEvent)) : List Nat :=
  results.zipIdx.filterMap fun (r, index) => if r.isOk then some index else none

/-- The entries that no message in `mapped` accounts for. -/
def unclaimed (log : List LogEntry) (mapped : List Nat) : List LogEntry :=
  log.filter fun entry => !mapped.contains entry.index.toNat

/-- The events of the messages, then those of the log entries that are left. -/
def events (d : Decoder) (e : Envelope) (log : List LogEntry) : Measured (List TransactionEvent) :=
  let results := d.messages e log
  { value := results.filterMap Except.toOption ++
      (unclaimed log (mapped results)).map LogEntry.toEvent
    metrics := results.filterMap fun
      | .error metric => some metric
      | .ok _ => none }

/-- Everything that can be told of a transaction. -/
def decode (d : Decoder) (raw : RawTransaction) : Except DecodeError (Measured Transaction) := do
  let rawLog := raw.execution.log
  let log := Log.parse? rawLog
  let entries := log.getD []
  let tx : Transaction :=
    { hash := raw.hash
      height := (Text.word64? raw.height).getD 0
      gasWanted := ← gasOf "gas_wanted" raw.execution.gasWanted
      gasUsed := ← gasOf "gas_used" raw.execution.gasUsed
      raw := raw.tx
      rawLog }
  -- a log that is not readable is itself the message of an error
  let trailing := if log.isNone then [TransactionEvent.failure "" rawLog] else []
  let closing := [Metric.decoded d.version, .conversion "transaction"]
  match d.envelope raw.tx with
  | .ok envelope =>
    let fee ← envelope.feeAmounts.mapError .fee
    let events := d.events envelope entries
    return {
      value := { tx with memo := envelope.memo, fee, events := events.value ++ trailing }
      metrics := events.metrics ++ closing }
  | .error e =>
    let events := .failure "tx" e.message :: entries.map LogEntry.toEvent
    return {
      value := { tx with events := events ++ trailing }
      metrics := .brokenMessage "envelope" "tx" :: closing }

/-- A transaction of a known block. -/
def decodeIn (d : Decoder) (block : Block) (raw : RawTransaction) :
    Except DecodeError (Measured Transaction) := do
  let tx ← d.decode raw
  return { tx with
    value := { tx.value with
      blockHash := block.hash, time := some block.time, chainId := block.chainId } }

/-- The fee of a transaction in base64. -/
def decodeFee (d : Decoder) (tx : String) : Except DecodeError (List Amount) := do
  let envelope ← (d.envelope tx).mapError .envelope
  envelope.feeAmounts.mapError .fee

/-- The events of a transaction in base64 with its execution log. -/
def decodeEvents (d : Decoder) (tx log : String) :
    Except DecodeError (Measured (List TransactionEvent)) := do
  let envelope ← (d.envelope tx).mapError .envelope
  let some entries := Log.parse? log | throw (.log (d.notLog log))
  return d.events envelope entries

end Decoder

end ChainIndex
