import ChainIndex.Envelope.Basic

/-!
# Kinds of messages

Every message that is mapped has a kind: the module it belongs to, its type within the module, and
the tags it is sent under, registered names and type URLs.

* `MessageKind.ofTag?`: the kind of a tag.
-/

namespace ChainIndex

inductive MessageKind where
  | bankSend
  | bankMultiSend
  | crisisVerifyInvariant
  | distributionWithdrawValidatorCommission
  | distributionSetWithdrawAddress
  | distributionWithdrawDelegatorReward
  | distributionFundCommunityPool
  | evidenceSubmitEvidence
  | govDeposit
  | govVote
  | govSubmitProposal
  | marketSwap
  | marketSwapSend
  | msgauthGrantAuthorization
  | msgauthRevokeAuthorization
  | msgauthExecDelegated
  | oracleExchangeRateVote
  | oracleExchangeRatePrevote
  | oracleDelegateFeeder
  | oracleAggregateExchangeRatePrevote
  | oracleAggregateExchangeRateVote
  | slashingUnjail
  | stakingBeginUnbonding
  | stakingEditValidator
  | stakingCreateValidator
  | stakingDelegate
  | stakingBeginRedelegate
  | wasmExecuteContract
  | wasmStoreCode
  | wasmUpdateContractOwner
  | wasmInstantiateContract
  | wasmMigrateContract
  | ibcTransfer
  | ibcCreateClient
  | ibcUpdateClient
  | ibcUpgradeClient
  | ibcSubmitMisbehaviour
  | ibcConnectionOpenInit
  | ibcConnectionOpenTry
  | ibcConnectionOpenAck
  | ibcConnectionOpenConfirm
  | ibcChannelOpenInit
  | ibcChannelOpenTry
  | ibcChannelOpenAck
  | ibcChannelOpenConfirm
  | ibcChannelCloseInit
  | ibcChannelCloseConfirm
  | ibcRecvPacket
  | ibcTimeout
  | ibcAcknowledgement
deriving DecidableEq, Repr

namespace MessageKind

/-- What is fixed for a kind. -/
structure Info where
  route : String
  type : String
  tags : List String

def info : MessageKind → Info
  | .bankSend => ⟨"bank", "send", ["bank/MsgSend", "/cosmos.bank.v1beta1.MsgSend"]⟩
  | .bankMultiSend => ⟨"bank", "multisend",
      ["bank/MsgMultiSend", "/cosmos.bank.v1beta1.MsgMultiSend"]⟩
  | .crisisVerifyInvariant => ⟨"crisis", "verify_invariant",
      ["crisis/MsgVerifyInvariant", "/cosmos.crisis.v1beta1.MsgVerifyInvariant"]⟩
  | .distributionWithdrawValidatorCommission => ⟨"distribution", "withdraw_validator_commission",
      ["distribution/MsgWithdrawValidatorCommission",
       "/cosmos.distribution.v1beta1.MsgWithdrawValidatorCommission"]⟩
  | .distributionSetWithdrawAddress => ⟨"distribution", "set_withdraw_address",
      ["distribution/MsgModifyWithdrawAddress",
       "/cosmos.distribution.v1beta1.MsgSetWithdrawAddress"]⟩
  | .distributionWithdrawDelegatorReward => ⟨"distribution", "withdraw_delegator_reward",
      ["distribution/MsgWithdrawDelegationReward",
       "/cosmos.distribution.v1beta1.MsgWithdrawDelegatorReward"]⟩
  | .distributionFundCommunityPool => ⟨"distribution", "fund_community_pool",
      ["distribution/MsgFundCommunityPool", "/cosmos.distribution.v1beta1.MsgFundCommunityPool"]⟩
  | .evidenceSubmitEvidence => ⟨"evidence", "submit_evidence",
      ["cosmos-sdk/MsgSubmitEvidence",
       "evidence/MsgSubmitEvidence",
       "/cosmos.evidence.v1beta1.MsgSubmitEvidence"]⟩
  | .govDeposit => ⟨"gov", "deposit", ["gov/MsgDeposit", "/cosmos.gov.v1beta1.MsgDeposit"]⟩
  | .govVote => ⟨"gov", "vote", ["gov/MsgVote", "/cosmos.gov.v1beta1.MsgVote"]⟩
  | .govSubmitProposal => ⟨"gov", "submit_proposal",
      ["gov/MsgSubmitProposal", "/cosmos.gov.v1beta1.MsgSubmitProposal"]⟩
  | .marketSwap => ⟨"market", "swap", ["market/MsgSwap", "/terra.market.v1beta1.MsgSwap"]⟩
  | .marketSwapSend => ⟨"market", "swapsend",
      ["market/MsgSwapSend", "/terra.market.v1beta1.MsgSwapSend"]⟩
  | .msgauthGrantAuthorization => ⟨"msgauth", "grant_authorization",
      ["msgauth/MsgGrantAuthorization", "/cosmos.authz.v1beta1.MsgGrant"]⟩
  | .msgauthRevokeAuthorization => ⟨"msgauth", "revoke_authorization",
      ["msgauth/MsgRevokeAuthorization", "/cosmos.authz.v1beta1.MsgRevoke"]⟩
  | .msgauthExecDelegated => ⟨"msgauth", "exec_delegated",
      ["msgauth/MsgExecAuthorized", "/cosmos.authz.v1beta1.MsgExec"]⟩
  | .oracleExchangeRateVote => ⟨"oracle", "exchangeratevote", ["oracle/MsgExchangeRateVote"]⟩
  | .oracleExchangeRatePrevote => ⟨"oracle", "exchangerateprevote",
      ["oracle/MsgExchangeRatePrevote"]⟩
  | .oracleDelegateFeeder => ⟨"oracle", "delegatefeeder",
      ["oracle/MsgDelegateFeedConsent", "/terra.oracle.v1beta1.MsgDelegateFeedConsent"]⟩
  | .oracleAggregateExchangeRatePrevote => ⟨"oracle", "aggregateexchangerateprevote",
      ["oracle/MsgAggregateExchangeRatePrevote",
       "/terra.oracle.v1beta1.MsgAggregateExchangeRatePrevote"]⟩
  | .oracleAggregateExchangeRateVote => ⟨"oracle", "aggregateexchangeratevote",
      ["oracle/MsgAggregateExchangeRateVote", "/terra.oracle.v1beta1.MsgAggregateExchangeRateVote"]⟩
  | .slashingUnjail => ⟨"slashing", "unjail",
      ["slashing/MsgUnjail", "/cosmos.slashing.v1beta1.MsgUnjail"]⟩
  | .stakingBeginUnbonding => ⟨"staking", "begin_unbonding",
      ["staking/MsgUndelegate", "/cosmos.staking.v1beta1.MsgUndelegate"]⟩
  | .stakingEditValidator => ⟨"staking", "edit_validator",
      ["staking/MsgEditValidator", "/cosmos.staking.v1beta1.MsgEditValidator"]⟩
  | .stakingCreateValidator => ⟨"staking", "create_validator",
      ["staking/MsgCreateValidator", "/cosmos.staking.v1beta1.MsgCreateValidator"]⟩
  | .stakingDelegate => ⟨"staking", "delegate",
      ["staking/MsgDelegate", "/cosmos.staking.v1beta1.MsgDelegate"]⟩
  | .stakingBeginRedelegate => ⟨"staking", "begin_redelegate",
      ["staking/MsgBeginRedelegate", "/cosmos.staking.v1beta1.MsgBeginRedelegate"]⟩
  | .wasmExecuteContract => ⟨"wasm", "execute_contract",
      ["wasm/MsgExecuteContract", "/terra.wasm.v1beta1.MsgExecuteContract"]⟩
  | .wasmStoreCode => ⟨"wasm", "store_code",
      ["wasm/MsgStoreCode", "/terra.wasm.v1beta1.MsgStoreCode"]⟩
  | .wasmUpdateContractOwner => ⟨"wasm", "update_contract_owner",
      ["wasm/MsgUpdateContractOwner", "/terra.wasm.v1beta1.MsgUpdateContractAdmin"]⟩
  | .wasmInstantiateContract => ⟨"wasm", "instantiate_contract",
      ["wasm/MsgInstantiateContract", "/terra.wasm.v1beta1.MsgInstantiateContract"]⟩
  | .wasmMigrateContract => ⟨"wasm", "migrate_contract",
      ["wasm/MsgMigrateContract", "/terra.wasm.v1beta1.MsgMigrateContract"]⟩
  | .ibcTransfer => ⟨"ibc", "transfer", ["/ibc.applications.transfer.v1.MsgTransfer"]⟩
  | .ibcCreateClient => ⟨"ibc", "create_client", ["/ibc.core.client.v1.MsgCreateClient"]⟩
  | .ibcUpdateClient => ⟨"ibc", "update_client", ["/ibc.core.client.v1.MsgUpdateClient"]⟩
  | .ibcUpgradeClient => ⟨"ibc", "upgrade_client", ["/ibc.core.client.v1.MsgUpgradeClient"]⟩
  | .ibcSubmitMisbehaviour => ⟨"ibc", "submit_misbehaviour",
      ["/ibc.core.client.v1.MsgSubmitMisbehaviour"]⟩
  | .ibcConnectionOpenInit => ⟨"ibc", "connection_open_init",
      ["/ibc.core.connection.v1.MsgConnectionOpenInit"]⟩
  | .ibcConnectionOpenTry => ⟨"ibc", "connection_open_try",
      ["/ibc.core.connection.v1.MsgConnectionOpenTry"]⟩
  | .ibcConnectionOpenAck => ⟨"ibc", "connection_open_ack",
      ["/ibc.core.connection.v1.MsgConnectionOpenAck"]⟩
  | .ibcConnectionOpenConfirm => ⟨"ibc", "connection_open_confirm",
      ["/ibc.core.connection.v1.MsgConnectionOpenConfirm"]⟩
  | .ibcChannelOpenInit => ⟨"ibc", "channel_open_init", ["/ibc.core.channel.v1.MsgChannelOpenInit"]⟩
  | .ibcChannelOpenTry => ⟨"ibc", "channel_open_try", ["/ibc.core.channel.v1.MsgChannelOpenTry"]⟩
  | .ibcChannelOpenAck => ⟨"ibc", "channel_open_ack", ["/ibc.core.channel.v1.MsgChannelOpenAck"]⟩
  | .ibcChannelOpenConfirm => ⟨"ibc", "channel_open_confirm",
      ["/ibc.core.channel.v1.MsgChannelOpenConfirm"]⟩
  | .ibcChannelCloseInit => ⟨"ibc", "channel_close_init",
      ["/ibc.core.channel.v1.MsgChannelCloseInit"]⟩
  | .ibcChannelCloseConfirm => ⟨"ibc", "channel_close_confirm",
      ["/ibc.core.channel.v1.MsgChannelCloseConfirm"]⟩
  | .ibcRecvPacket => ⟨"ibc", "recv_packet", ["/ibc.core.channel.v1.MsgRecvPacket"]⟩
  | .ibcTimeout => ⟨"ibc", "timeout", ["/ibc.core.channel.v1.MsgTimeout"]⟩
  | .ibcAcknowledgement => ⟨"ibc", "acknowledgement", ["/ibc.core.channel.v1.MsgAcknowledgement"]⟩

def route (k : MessageKind) : String := k.info.route

/-- The type within the module. -/
def type (k : MessageKind) : String := k.info.type

def tags (k : MessageKind) : List String := k.info.tags

/-- All kinds. -/
def all : List MessageKind := [
  .bankSend, .bankMultiSend, .crisisVerifyInvariant, .distributionWithdrawValidatorCommission,
  .distributionSetWithdrawAddress, .distributionWithdrawDelegatorReward,
  .distributionFundCommunityPool, .evidenceSubmitEvidence, .govDeposit, .govVote,
  .govSubmitProposal, .marketSwap, .marketSwapSend, .msgauthGrantAuthorization,
  .msgauthRevokeAuthorization, .msgauthExecDelegated, .oracleExchangeRateVote,
  .oracleExchangeRatePrevote, .oracleDelegateFeeder, .oracleAggregateExchangeRatePrevote,
  .oracleAggregateExchangeRateVote, .slashingUnjail, .stakingBeginUnbonding, .stakingEditValidator,
  .stakingCreateValidator, .stakingDelegate, .stakingBeginRedelegate, .wasmExecuteContract,
  .wasmStoreCode, .wasmUpdateContractOwner, .wasmInstantiateContract, .wasmMigrateContract,
  .ibcTransfer, .ibcCreateClient, .ibcUpdateClient, .ibcUpgradeClient, .ibcSubmitMisbehaviour,
  .ibcConnectionOpenInit, .ibcConnectionOpenTry, .ibcConnectionOpenAck, .ibcConnectionOpenConfirm,
  .ibcChannelOpenInit, .ibcChannelOpenTry, .ibcChannelOpenAck, .ibcChannelOpenConfirm,
  .ibcChannelCloseInit, .ibcChannelCloseConfirm, .ibcRecvPacket, .ibcTimeout, .ibcAcknowledgement]

/-- The kind that is sent under a tag. -/
def ofTag? (tag : String) : Option MessageKind :=
  all.find? fun k => k.tags.contains tag

end MessageKind

/-- A message whose type is known or not. -/
inductive Message where
  | known (kind : MessageKind) (payload : Wire.Bytes)
  | unknown (typeTag : String) (payload : Wire.Bytes)
deriving DecidableEq, Repr

namespace Message

def resolve (raw : RawMessage) : Message :=
  match MessageKind.ofTag? raw.typeTag with
  | some kind => .known kind raw.payload
  | none => .unknown raw.typeTag raw.payload

/-- The type and module under which the message is counted. -/
def labels : Message → String × String
  | .known kind _ => (kind.type, kind.route)
  | .unknown typeTag _ => (typeTag, "unknown")

end Message

end ChainIndex
