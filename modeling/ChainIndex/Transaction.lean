import ChainIndex.Chain.Block
import ChainIndex.Event.Json

/-!
# Transactions

Before decoding, as a node reports them, and after.
-/

namespace ChainIndex

open Json (Codec Field Shape)

/-- How the execution of a transaction went. -/
structure Execution where
  log : String := ""
  gasWanted : String := ""
  gasUsed : String := ""
deriving DecidableEq, Repr, Inhabited

namespace Execution

def shape : Shape Execution where
  empty := {}
  fields := [
    .defaulted "log" .text log fun x v => { x with log := v },
    { Field.defaulted "gasWanted" .text gasWanted fun x v => { x with gasWanted := v } with
      aliases := ["gas_wanted"] },
    { Field.defaulted "gasUsed" .text gasUsed fun x v => { x with gasUsed := v } with
      aliases := ["gas_used"] }]

def codec : Codec Execution := shape.codec

end Execution

/-- A transaction as a node reports it. -/
structure RawTransaction where
  hash : String := ""
  height : String := ""
  execution : Execution := {}
  /-- The bytes of the transaction, in base64. -/
  tx : String := ""
deriving DecidableEq, Repr, Inhabited

namespace RawTransaction

def shape : Shape RawTransaction where
  empty := {}
  fields := [
    .required "hash" .text hash fun t v => { t with hash := v },
    .required "height" .text height fun t v => { t with height := v },
    .defaulted "tx_result" Execution.codec execution fun t v => { t with execution := v },
    .defaulted "tx" .text tx fun t v => { t with tx := v }]

def codec : Codec RawTransaction := shape.codec

end RawTransaction

/-- A decoded transaction. -/
structure Transaction where
  hash : String := ""
  height : Height := 0
  time : Option Time := none
  chainId : String := ""
  blockHash : String := ""
  memo : String := ""
  gasWanted : UInt64 := 0
  gasUsed : UInt64 := 0
  fee : List Amount := []
  /-- The bytes of the transaction, in base64, as the node reported them. -/
  raw : String := ""
  rawLog : String := ""
  events : List TransactionEvent := []
deriving Repr, Inhabited

namespace Transaction

def shape : Shape Transaction where
  empty := {}
  fields := [
    .required "hash" .text hash fun t v => { t with hash := v },
    .required "height" .word64 height fun t v => { t with height := v },
    .nullable "time" Time.codec time fun t v => { t with time := v },
    .required "chain_id" .text chainId fun t v => { t with chainId := v },
    .required "block_hash" .text blockHash fun t v => { t with blockHash := v },
    .required "memo" .text memo fun t v => { t with memo := v },
    .required "gas_wanted" .word64 gasWanted fun t v => { t with gasWanted := v },
    .required "gas_used" .word64 gasUsed fun t v => { t with gasUsed := v },
    .defaulted "fee" (.list Amount.codec) fee fun t v => { t with fee := v },
    .required "raw" .text raw fun t v => { t with raw := v },
    .required "raw_log" .text rawLog fun t v => { t with rawLog := v },
    .defaulted "events" (.list TransactionEvent.codec) events fun t v => { t with events := v }]

def codec : Codec Transaction := shape.codec

end Transaction

end ChainIndex
