import ChainIndex.Amount.Json
import ChainIndex.Chain.Block

/-!
# Queries and their answers

What is asked of a node about heights and accounts, and what comes back.
-/

namespace ChainIndex

open Json (Codec Field Shape)

/-- One page of the transactions of a height. -/
structure SearchPage where
  height : Height := 0
  page : UInt32 := 0
  perPage : UInt32 := 0
deriving DecidableEq, Repr, Inhabited

namespace SearchPage

def shape : Shape SearchPage where
  empty := {}
  fields := [
    .required "height" .word64 height fun p v => { p with height := v },
    .required "page" .word32 page fun p v => { p with page := v },
    .required "per_page" .word32 perPage fun p v => { p with perPage := v }]

def codec : Codec SearchPage := shape.codec

end SearchPage

/-- A request for the blocks since the last one that was processed. -/
structure LatestQuery where
  lastHeight : Height := 0
  lastHash : String := ""
  lastTime : Option Time := none
  nonce : Option String := none
  retryCount : UInt64 := 0
  selfCheck : Bool := false
deriving DecidableEq, Repr, Inhabited

namespace LatestQuery

def shape : Shape LatestQuery where
  empty := {}
  fields := [
    .defaulted "last_height" .word64 lastHeight fun q v => { q with lastHeight := v },
    .defaulted "last_hash" .text lastHash fun q v => { q with lastHash := v },
    .defaulted "last_time" Time.codec.option lastTime fun q v => { q with lastTime := v },
    .defaulted "nonce" Codec.text.option nonce fun q v => { q with nonce := v },
    .defaulted "retry_count" .word64 retryCount fun q v => { q with retryCount := v },
    .defaulted "self_check" .bool selfCheck fun q v => { q with selfCheck := v }]

def codec : Codec LatestQuery := shape.codec

end LatestQuery

/-- The newest block of the chain. -/
structure LatestMark where
  lastHash : String := ""
  lastHeight : Height := 0
  lastTime : Time := default
deriving DecidableEq, Repr, Inhabited

namespace LatestMark

def shape : Shape LatestMark where
  empty := {}
  fields := [
    .required "last_hash" .text lastHash fun m v => { m with lastHash := v },
    .required "last_height" .word64 lastHeight fun m v => { m with lastHeight := v },
    .required "last_time" Time.codec lastTime fun m v => { m with lastTime := v }]

def codec : Codec LatestMark := shape.codec

end LatestMark

/-- A question about an account; height zero means now. -/
structure AccountQuery where
  height : Height := 0
  account : String := ""
  chainId : String := ""
  network : String := ""
deriving DecidableEq, Repr, Inhabited

namespace AccountQuery

def shape : Shape AccountQuery where
  empty := {}
  fields := [
    .defaulted "height" .word64 height fun q v => { q with height := v },
    .required "account" .text account fun q v => { q with account := v },
    .defaulted "chain_id" .text chainId fun q v => { q with chainId := v },
    .defaulted "network" .text network fun q v => { q with network := v }]

def codec : Codec AccountQuery := shape.codec

end AccountQuery

structure Reward where
  height : Height := 0
  account : String := ""
  rewards : List Amount := []
deriving DecidableEq, Repr, Inhabited

namespace Reward

def shape : Shape Reward where
  empty := {}
  fields := [
    .required "height" .word64 height fun r v => { r with height := v },
    .required "account" .text account fun r v => { r with account := v },
    .required "rewards" (.list Amount.codec) rewards fun r v => { r with rewards := v }]

def codec : Codec Reward := shape.codec

end Reward

structure Balance where
  height : Height := 0
  account : String := ""
  balances : List Amount := []
deriving DecidableEq, Repr, Inhabited

namespace Balance

def shape : Shape Balance where
  empty := {}
  fields := [
    .required "height" .word64 height fun b v => { b with height := v },
    .required "account" .text account fun b v => { b with account := v },
    .required "balances" (.list Amount.codec) balances fun b v => { b with balances := v }]

def codec : Codec Balance := shape.codec

end Balance

structure Delegation where
  delegator : String := ""
  validator : String := ""
  shares : Amount := {}
  balance : Amount := {}
deriving DecidableEq, Repr, Inhabited

namespace Delegation

def shape : Shape Delegation where
  empty := {}
  fields := [
    .required "delegator" .text delegator fun d v => { d with delegator := v },
    .required "validator" .text validator fun d v => { d with validator := v },
    .required "shares" Amount.codec shares fun d v => { d with shares := v },
    .required "balance" Amount.codec balance fun d v => { d with balance := v }]

def codec : Codec Delegation := shape.codec

end Delegation

/-- All delegations of an account. -/
structure Delegations where
  height : Height := 0
  account : String := ""
  delegations : List Delegation := []
deriving DecidableEq, Repr, Inhabited

namespace Delegations

def shape : Shape Delegations where
  empty := {}
  fields := [
    .required "height" .word64 height fun d v => { d with height := v },
    .required "account" .text account fun d v => { d with account := v },
    .required "delegations" (.list Delegation.codec) delegations
      fun d v => { d with delegations := v }]

def codec : Codec Delegations := shape.codec

end Delegations

end ChainIndex
