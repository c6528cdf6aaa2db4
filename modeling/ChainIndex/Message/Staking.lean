import ChainIndex.Message.Context

/-!
# Messages of the staking module
-/

namespace ChainIndex.Message.Staking

open Wire (Bytes Field Layout)

def descriptionLayout : Layout Description where
  name := "Description"
  empty := {}
  fields := [
    .single .text 1 "moniker" (·.moniker) fun d v => { d with moniker := v },
    .single .text 2 "identity" (·.identity) fun d v => { d with identity := v },
    .single .text 3 "website" (·.website) fun d v => { d with website := v },
    .single .text 4 "security_contact" (·.securityContact)
      fun d v => { d with securityContact := v },
    .single .text 5 "details" (·.details) fun d v => { d with details := v }]

/-- Rates as integers, `10 ^ 18` times their value. -/
structure Commission where
  rate : String := ""
  maxRate : String := ""
  maxChangeRate : String := ""
deriving DecidableEq, Repr, Inhabited

def Commission.layout : Layout Commission where
  name := "CommissionRates"
  empty := {}
  fields := [
    .single .text 1 "rate" rate fun m v => { m with rate := v },
    .single .text 2 "max_rate" maxRate fun m v => { m with maxRate := v },
    .single .text 3 "max_change_rate" maxChangeRate fun m v => { m with maxChangeRate := v }]

structure CreateValidator where
  description : Option Description := none
  commission : Option Commission := none
  minSelfDelegation : String := ""
  delegator : Bytes := []
  validator : Bytes := []
  value : Option Coin := none
deriving DecidableEq, Repr, Inhabited

def CreateValidator.layout : Layout CreateValidator where
  name := "MsgCreateValidator"
  empty := {}
  fields := [
    .message descriptionLayout 1 "description" description fun m v => { m with description := v },
    .message Commission.layout 2 "commission" commission fun m v => { m with commission := v },
    .single .text 3 "min_self_delegation" minSelfDelegation
      fun m v => { m with minSelfDelegation := v },
    .single .blob 4 "delegator_address" delegator fun m v => { m with delegator := v },
    .single .blob 5 "validator_address" validator fun m v => { m with validator := v },
    .message Coin.layout 7 "value" value fun m v => { m with value := v }]

structure EditValidator where
  description : Option Description := none
  validator : Bytes := []
  commissionRate : String := ""
  minSelfDelegation : String := ""
deriving DecidableEq, Repr, Inhabited

def EditValidator.layout : Layout EditValidator where
  name := "MsgEditValidator"
  empty := {}
  fields := [
    .message descriptionLayout 1 "description" description fun m v => { m with description := v },
    .single .blob 2 "validator_address" validator fun m v => { m with validator := v },
    .single .text 3 "commission_rate" commissionRate fun m v => { m with commissionRate := v },
    .single .text 4 "min_self_delegation" minSelfDelegation
      fun m v => { m with minSelfDelegation := v }]

/-- Delegating and undelegating look the same. -/
structure Delegate where
  delegator : Bytes := []
  validator : Bytes := []
  amount : Option Coin := none
deriving DecidableEq, Repr, Inhabited

def Delegate.layout : Layout Delegate where
  name := "MsgDelegate"
  empty := {}
  fields := [
    .single .blob 1 "delegator_address" delegator fun m v => { m with delegator := v },
    .single .blob 2 "validator_address" validator fun m v => { m with validator := v },
    .message Coin.layout 3 "amount" amount fun m v => { m with amount := v }]

structure Redelegate where
  delegator : Bytes := []
  source : Bytes := []
  destination : Bytes := []
  amount : Option Coin := none
deriving DecidableEq, Repr, Inhabited

def Redelegate.layout : Layout Redelegate where
  name := "MsgBeginRedelegate"
  empty := {}
  fields := [
    .single .blob 1 "delegator_address" delegator fun m v => { m with delegator := v },
    .single .blob 2 "validator_src_address" source fun m v => { m with source := v },
    .single .blob 3 "validator_dst_address" destination fun m v => { m with destination := v },
    .message Coin.layout 4 "amount" amount fun m v => { m with amount := v }]

/-- The module account through which bonded tokens leave; what it gets is no reward. -/
def unbondedPool : String := "terra1tygms3xhhs3yv487phx3dw4a95jn7t7l8l07dr"

def undelegate (c : Context) (payload : Bytes) : Mapped Event := do
  let m ← readAs Delegate.layout "MsgUndelegate" payload
  let delegator ← c.account "delegator_address" m.delegator
  let validator ← c.validator "validator_address" m.validator
  let amount ← requiredCoin "amount" m.amount
  c.addTransfers Event.rewardKind unbondedPool <| eventOf .stakingBeginUnbonding
    |>.withNode "delegator" delegator
    |>.withNode "validator" validator
    |>.withAmount "undelegate" amount

def delegate (c : Context) (payload : Bytes) : Mapped Event := do
  let m ← readAs Delegate.layout "MsgDelegate" payload
  let delegator ← c.account "delegator_address" m.delegator
  let validator ← c.validator "validator_address" m.validator
  let amount ← requiredCoin "amount" m.amount
  c.addTransfers Event.rewardKind "" <| eventOf .stakingDelegate
    |>.withNode "delegator" delegator
    |>.withNode "validator" validator
    |>.withAmount "delegate" amount

def redelegate (c : Context) (payload : Bytes) : Mapped Event := do
  let m ← readAs Redelegate.layout "MsgBeginRedelegate" payload
  let delegator ← c.account "delegator_address" m.delegator
  let destination ← c.validator "validator_dst_address" m.destination
  let source ← c.validator "validator_src_address" m.source
  let amount ← requiredCoin "amount" m.amount
  c.addTransfers Event.rewardKind "" <| eventOf .stakingBeginRedelegate
    |>.withNode "delegator" delegator
    |>.withNode "validator_destination" destination
    |>.withNode "validator_source" source
    |>.withAmount "delegate" amount

def createValidator (c : Context) (payload : Bytes) : Mapped Event := do
  let m ← readAs CreateValidator.layout "MsgCreateValidator" payload
  let operator ← c.validator "validator_address" m.validator
  let commission := m.commission.getD {}
  let delegator ← c.account "delegator_address" m.delegator
  let value ← requiredCoin "value" m.value
  let least ← plainAmount "min_self_delegation" m.minSelfDelegation
  let rate ← fixedPoint "commission.rate" "" commission.rate
  let maxRate ← fixedPoint "commission.max_rate" "" commission.maxRate
  let maxChange ← fixedPoint "commission.max_change_rate" "" commission.maxChangeRate
  return eventOf .stakingCreateValidator
    |>.withNode "delegator" delegator
    |>.withNode "validator" { operator with details := m.description }
    |>.withAmount "self_delegation" value
    |>.withAmount "self_delegation_min" least
    |>.withAmount "commission_rate" rate
    |>.withAmount "commission_max_rate" maxRate
    |>.withAmount "commission_max_change_rate" maxChange

def editValidator (c : Context) (payload : Bytes) : Mapped Event := do
  let m ← readAs EditValidator.layout "MsgEditValidator" payload
  let operator ← c.validator "validator_address" m.validator
  let e := (eventOf .stakingEditValidator).withNode "validator"
    { operator with details := m.description }
  let e ←
    if m.minSelfDelegation.isEmpty then pure e
    else do
      let least ← plainAmount "min_self_delegation" m.minSelfDelegation
      pure (e.withAmount "self_delegation_min" least)
  if m.commissionRate.isEmpty then return e
  let rate ← fixedPoint "commission_rate" "" m.commissionRate
  return e.withAmount "commission_rate" rate

end ChainIndex.Message.Staking
