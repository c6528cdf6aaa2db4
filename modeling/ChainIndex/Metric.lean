import ChainIndex.Chain.Version
import ChainIndex.Keyed

/-!
# Metrics

What the indexer counts about itself. Each record names a metric and the attributes that tell its
series apart.

* `Metric.totals`: the sums of a journal of records, by series.
-/

namespace ChainIndex

/-- One record. -/
inductive Metric where
  | decoded (version : ChainVersion)
  /-- A message whose type is not mapped. -/
  | unknownMessage (type route : String)
  /-- A message of a mapped type whose content failed. -/
  | brokenMessage (type route : String)
  | conversion (item : String)
  /-- A request to a node; the status is zero where there was no answer. -/
  | request (endpoint : String) (status : Nat)
  | cacheLookup (hit : Bool)
  | taskReceived (type : String)
  | responseSent (type : String) (final : Bool)
  /-- How many items an answer announced. -/
  | items (count : UInt64) (item : String)
deriving DecidableEq, Repr

namespace Metric

def name : Metric → String
  | decoded _ => "transactions_decoded"
  | unknownMessage _ _ => "unknown_messages"
  | brokenMessage _ _ => "broken_messages"
  | conversion _ => "conversion_ms"
  | request _ _ => "request_ms"
  | cacheLookup _ => "block_cache"
  | taskReceived _ => "received_requests"
  | responseSent _ _ => "responses_sent"
  | items _ _ => "items_per_request"

def attributes : Metric → List (String × String)
  | decoded version => [("chain_version", version.label)]
  | unknownMessage type route | brokenMessage type route => [("type", type), ("route", route)]
  | conversion item | items _ item => [("type", item)]
  | request endpoint status => [("endpoint", endpoint), ("status", toString status)]
  | cacheLookup hit => [("cache", if hit then "hit" else "miss")]
  | taskReceived type => [("type", type)]
  | responseSent type final => [("type", type), ("final", if final then "true" else "false")]

/-- What the record adds to its series. -/
def weight : Metric → Nat
  | items count _ => count.toNat
  | _ => 1

/-- The name and attributes as one text. -/
def series (m : Metric) : String :=
  m.attributes.foldl (fun text p => s!"{text}|{p.1}={p.2}") m.name

/-- The sum of every series that a journal mentions. -/
def totals (journal : List Metric) : Keyed Nat :=
  journal.foldl (fun (t : Keyed Nat) m => t.alter m.series fun old => old.getD 0 + m.weight) []

end Metric

end ChainIndex
