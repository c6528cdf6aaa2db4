import ChainIndex.Message.Context

/-!
# Messages of the distribution module
-/

namespace ChainIndex.Message.Distribution

open Wire (Bytes Field Layout)

structure WithdrawCommission where
  validator : Bytes := []
deriving DecidableEq, Repr, Inhabited

def WithdrawCommission.layout : Layout WithdrawCommission where
  name := "MsgWithdrawValidatorCommission"
  empty := {}
  fields := [.single .blob 1 "validator_address" validator fun m v => { m with validator := v }]

structure SetWithdrawAddress where
  delegator : Bytes := []
  withdraw : Bytes := []
deriving DecidableEq, Repr, Inhabited

def SetWithdrawAddress.layout : Layout SetWithdrawAddress where
  name := "MsgSetWithdrawAddress"
  empty := {}
  fields := [
    .single .blob 1 "delegator_address" delegator fun m v => { m with delegator := v },
    .single .blob 2 "withdraw_address" withdraw fun m v => { m with withdraw := v }]

structure WithdrawReward where
  delegator : Bytes := []
  validator : Bytes := []
deriving DecidableEq, Repr, Inhabited

def WithdrawReward.layout : Layout WithdrawReward where
  name := "MsgWithdrawDelegatorReward"
  empty := {}
  fields := [
    .single .blob 1 "delegator_address" delegator fun m v => { m with delegator := v },
    .single .blob 2 "validator_address" validator fun m v => { m with validator := v }]

structure FundCommunityPool where
  amount : List Coin := []
  depositor : Bytes := []
deriving DecidableEq, Repr, Inhabited

def FundCommunityPool.layout : Layout FundCommunityPool where
  name := "MsgFundCommunityPool"
  empty := {}
  fields := [
    .messages Coin.layout 1 "amount" amount fun m v => { m with amount := v },
    .single .blob 2 "depositor" depositor fun m v => { m with depositor := v }]

def withdrawCommission (c : Context) (payload : Bytes) : Mapped Event := do
  let m ← readAs WithdrawCommission.layout "MsgWithdrawValidatorCommission" payload
  let operator ← c.validator "validator_address" m.validator
  c.addTransfers Event.sendKind "" <| eventOf .distributionWithdrawValidatorCommission
    |>.withNode "validator" operator
    |>.withRecipient { account := operator }

def setWithdrawAddress (c : Context) (payload : Bytes) : Mapped Event := do
  let m ← readAs SetWithdrawAddress.layout "MsgSetWithdrawAddress" payload
  let delegator ← c.account "delegator_address" m.delegator
  let withdraw ← c.account "withdraw_address" m.withdraw
  return eventOf .distributionSetWithdrawAddress
    |>.withNode "delegator" delegator
    |>.withNode "withdraw" withdraw

def withdrawReward (c : Context) (payload : Bytes) : Mapped Event := do
  let m ← readAs WithdrawReward.layout "MsgWithdrawDelegatorReward" payload
  let operator ← c.validator "validator_address" m.validator
  let delegator ← c.account "delegator_address" m.delegator
  c.addTransfers Event.rewardKind "" <| eventOf .distributionWithdrawDelegatorReward
    |>.withNode "delegator" delegator
    |>.withNode "validator" operator
    |>.withRecipient { account := operator }

def fundCommunityPool (c : Context) (payload : Bytes) : Mapped Event := do
  let m ← readAs FundCommunityPool.layout "MsgFundCommunityPool" payload
  let depositor ← c.account "depositor" m.depositor
  let amounts ← coins "amount" m.amount
  return eventOf .distributionFundCommunityPool
    |>.withNode "depositor" depositor
    |>.withSender { account := depositor, amounts }

end ChainIndex.Message.Distribution
