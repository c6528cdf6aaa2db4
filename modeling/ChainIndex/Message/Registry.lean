import ChainIndex.Message.Authorization
import ChainIndex.Message.Bank
import ChainIndex.Message.Crisis
import ChainIndex.Message.Distribution
import ChainIndex.Message.Evidence
import ChainIndex.Message.Gov
import ChainIndex.Message.Ibc.Channel
import ChainIndex.Message.Ibc.Client
import ChainIndex.Message.Ibc.Connection
import ChainIndex.Message.Ibc.Packet
import ChainIndex.Message.Ibc.Transfer
import ChainIndex.Message.Market
import ChainIndex.Message.Oracle
import ChainIndex.Message.Slashing
import ChainIndex.Message.Staking
import ChainIndex.Message.Wasm

/-!
# Mapping messages to events

A registry holds the kinds of messages that are mapped. Messages that wrap others are mapped with the
same registry one level deeper, and the levels are limited.

* `Registry.mapAt`: the event of a message with room for so many levels of wrapping.
-/

namespace ChainIndex

open Wire (Bytes)

/-- The event of a message of a kind; `inner?` maps wrapped messages while that is allowed. -/
def MessageKind.map (inner? : Option (RawMessage → Mapped Event)) (c : Context) (payload : Bytes) :
    MessageKind → Mapped Event
  | .bankSend => Message.Bank.send c payload
  | .bankMultiSend => Message.Bank.multiSend c payload
  | .crisisVerifyInvariant => Message.Crisis.verifyInvariant c payload
  | .distributionWithdrawValidatorCommission => Message.Distribution.withdrawCommission c payload
  | .distributionSetWithdrawAddress => Message.Distribution.setWithdrawAddress c payload
  | .distributionWithdrawDelegatorReward => Message.Distribution.withdrawReward c payload
  | .distributionFundCommunityPool => Message.Distribution.fundCommunityPool c payload
  | .evidenceSubmitEvidence => Message.Evidence.submit c payload
  | .govDeposit => Message.Gov.deposit c payload
  | .govVote => Message.Gov.vote c payload
  | .govSubmitProposal => Message.Gov.submitProposal c payload
  | .marketSwap => Message.Market.swap c payload
  | .marketSwapSend => Message.Market.swapSend c payload
  | .msgauthGrantAuthorization => Message.Authorization.grant c payload
  | .msgauthRevokeAuthorization => Message.Authorization.revoke c payload
  | .msgauthExecDelegated => Message.Authorization.execute inner? c payload
  | .oracleExchangeRateVote => Message.Oracle.rateVote c payload
  | .oracleExchangeRatePrevote => Message.Oracle.ratePrevote c payload
  | .oracleDelegateFeeder => Message.Oracle.delegateFeeder c payload
  | .oracleAggregateExchangeRatePrevote => Message.Oracle.aggregatePrevote c payload
  | .oracleAggregateExchangeRateVote => Message.Oracle.aggregateVote c payload
  | .slashingUnjail => Message.Slashing.unjail c payload
  | .stakingBeginUnbonding => Message.Staking.undelegate c payload
  | .stakingEditValidator => Message.Staking.editValidator c payload
  | .stakingCreateValidator => Message.Staking.createValidator c payload
  | .stakingDelegate => Message.Staking.delegate c payload
  | .stakingBeginRedelegate => Message.Staking.redelegate c payload
  | .wasmExecuteContract => Message.Wasm.execute c payload
  | .wasmStoreCode => Message.Wasm.storeCode c payload
  | .wasmUpdateContractOwner => Message.Wasm.updateOwner c payload
  | .wasmInstantiateContract => Message.Wasm.instantiate c payload
  | .wasmMigrateContract => Message.Wasm.migrate c payload
  | .ibcTransfer => Message.Ibc.transfer payload
  | .ibcCreateClient => Message.Ibc.createClient payload
  | .ibcUpdateClient => Message.Ibc.updateClient payload
  | .ibcUpgradeClient => Message.Ibc.upgradeClient payload
  | .ibcSubmitMisbehaviour => Message.Ibc.submitMisbehaviour payload
  | .ibcConnectionOpenInit => Message.Ibc.connectionOpenInit payload
  | .ibcConnectionOpenTry => Message.Ibc.connectionOpenTry payload
  | .ibcConnectionOpenAck => Message.Ibc.connectionOpenAck payload
  | .ibcConnectionOpenConfirm => Message.Ibc.connectionOpenConfirm payload
  | .ibcChannelOpenInit => Message.Ibc.channelOpenInit payload
  | .ibcChannelOpenTry => Message.Ibc.channelOpenTry payload
  | .ibcChannelOpenAck => Message.Ibc.channelOpenAck payload
  | .ibcChannelOpenConfirm => Message.Ibc.channelOpenConfirm payload
  | .ibcChannelCloseInit => Message.Ibc.channelCloseInit payload
  | .ibcChannelCloseConfirm => Message.Ibc.channelCloseConfirm payload
  | .ibcRecvPacket => Message.Ibc.recvPacket payload
  | .ibcTimeout => Message.Ibc.timeout payload
  | .ibcAcknowledgement => Message.Ibc.acknowledgement payload

/-- The kinds of messages that are mapped. -/
structure Registry where
  kinds : List MessageKind
deriving DecidableEq, Repr

namespace Registry

/-- Nothing is mapped. -/
def empty : Registry := ⟨[]⟩

/-- Everything is mapped. -/
def standard : Registry := ⟨MessageKind.all⟩

def contains (r : Registry) (k : MessageKind) : Bool :=
  r.kinds.contains k

/-- The event of a message with room for `room` further levels of wrapping. -/
def mapAt (r : Registry) (c : Context) : Nat → Message → Mapped Event
  | _, .unknown typeTag _ => .error (.unknown typeTag)
  | room, .known kind payload =>
    if r.contains kind then
      match room with
      | 0 => kind.map none c payload
      | room + 1 => kind.map (some fun raw => mapAt r c room (Message.resolve raw)) c payload
    else .error (.unknown kind.type)

/-- The event of a message of a transaction. -/
def map (r : Registry) (c : Context) (m : Message) : Mapped Event :=
  r.mapAt c wrapperLimit m

end Registry

end ChainIndex
