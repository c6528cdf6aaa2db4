import ChainIndex.Digest.Sha256
import ChainIndex.Envelope.Basic
import ChainIndex.Text.Hex

/-!
# The amino encoding

A value of an open type starts with four bytes that stand for the registered name of its actual type.
They are taken from the name's digest, so the table of the known names gives the name back. A
transaction is such a value with its length in front.

* `Amino.unpack`: the type and the bytes of a value.
* `Amino.decode`: the envelope of a transaction.
-/

namespace ChainIndex.Amino

open Wire (Bytes Field Layout)

/-- The names of the standard transaction. -/
def standardNames : List String := ["core/StdTx", "cosmos-sdk/StdTx"]

/-- The names of every type that may be met inside a transaction. -/
def registeredNames : List String := [
  "core/StdTx",
  "cosmos-sdk/StdTx",
  "bank/MsgSend",
  "bank/MsgMultiSend",
  "crisis/MsgVerifyInvariant",
  "distribution/MsgWithdrawValidatorCommission",
  "distribution/MsgModifyWithdrawAddress",
  "distribution/MsgWithdrawDelegationReward",
  "distribution/MsgFundCommunityPool",
  "distribution/CommunityPoolSpendProposal",
  "cosmos-sdk/MsgSubmitEvidence",
  "evidence/MsgSubmitEvidence",
  "cosmos-sdk/Equivocation",
  "evidence/Equivocation",
  "gov/MsgDeposit",
  "gov/MsgVote",
  "gov/MsgSubmitProposal",
  "gov/TextProposal",
  "params/ParameterChangeProposal",
  "upgrade/SoftwareUpgradeProposal",
  "upgrade/CancelSoftwareUpgradeProposal",
  "treasury/TaxRateUpdateProposal",
  "treasury/RewardWeightUpdateProposal",
  "market/MsgSwap",
  "market/MsgSwapSend",
  "msgauth/MsgGrantAuthorization",
  "msgauth/MsgRevokeAuthorization",
  "msgauth/MsgExecAuthorized",
  "msgauth/SendAuthorization",
  "msgauth/GenericAuthorization",
  "oracle/MsgExchangeRateVote",
  "oracle/MsgExchangeRatePrevote",
  "oracle/MsgDelegateFeedConsent",
  "oracle/MsgAggregateExchangeRatePrevote",
  "oracle/MsgAggregateExchangeRateVote",
  "slashing/MsgUnjail",
  "staking/MsgCreateValidator",
  "staking/MsgEditValidator",
  "staking/MsgDelegate",
  "staking/MsgUndelegate",
  "staking/MsgBeginRedelegate",
  "wasm/MsgStoreCode",
  "wasm/MsgInstantiateContract",
  "wasm/MsgExecuteContract",
  "wasm/MsgMigrateContract",
  "wasm/MsgUpdateContractOwner"]

/-- How many bytes stand for a type. -/
def prefixLength : Nat := 4

/-- The bytes that stand for a registered name: of its digest, without the zeros in front, three more
bytes and the zeros after them, the next four. -/
def typePrefix (name : String) : Bytes :=
  let significant := (Sha256.digest (Text.Utf8.encode name)).dropWhile (· == 0)
  let rest := (significant.drop 3).dropWhile (· == 0)
  (rest ++ List.replicate prefixLength 0).take prefixLength

/-- The registered names by the bytes that stand for them. -/
def table : List (Bytes × String) :=
  registeredNames.map fun name => (typePrefix name, name)

def nameOf? (typeBytes : Bytes) : Option String :=
  table.lookup typeBytes

/-- The tag of a type; one that is not registered keeps its bytes. -/
def tagOf (typeBytes : Bytes) : String :=
  (nameOf? typeBytes).getD ("amino:" ++ Text.Hex.encode typeBytes)

/-- The type and the bytes of a value. -/
def unpack (bytes : Bytes) : Except Envelope.Error RawMessage :=
  if bytes.length < prefixLength then .error .missingTypePrefix
  else .ok { typeTag := tagOf (bytes.take prefixLength), payload := bytes.drop prefixLength }

/-- The bytes that the length in front announces; what follows them is dropped. -/
def stripLength (bytes : Bytes) : Except Envelope.Error Bytes := do
  let (declared, rest) ← (Wire.located (Wire.Varint.read bytes)).mapError (.unreadable .amino)
  if rest.length < declared then throw (.length declared rest.length)
  return rest.take declared

structure StdFee where
  amount : List Coin := []
  gas : UInt64 := 0
deriving DecidableEq, Repr, Inhabited

def StdFee.layout : Layout StdFee where
  name := "StdFee"
  empty := {}
  fields := [
    .messages Coin.layout 1 "amount" amount fun f v => { f with amount := v },
    .single .word64 2 "gas" gas fun f v => { f with gas := v }]

structure StdTx where
  /-- The messages, each with the bytes of its type. -/
  messages : List Bytes := []
  fee : Option StdFee := none
  memo : String := ""
deriving DecidableEq, Repr, Inhabited

def StdTx.layout : Layout StdTx where
  name := "StdTx"
  empty := {}
  fields := [
    .repeated .blob 1 "msgs" messages fun t v => { t with messages := v },
    .message StdFee.layout 2 "fee" fee fun t v => { t with fee := v },
    .single .text 4 "memo" memo fun t v => { t with memo := v }]

/-- The envelope of a transaction. -/
def decode (bytes : Bytes) : Except Envelope.Error Envelope := do
  let value ← unpack (← stripLength bytes)
  if !standardNames.contains value.typeTag then throw (.unexpectedType value.typeTag)
  let tx ← (StdTx.layout.read value.payload).mapError (.unreadable .amino)
  let messages ← tx.messages.mapM unpack
  return { messages, memo := tx.memo, fee := (tx.fee.map StdFee.amount).getD [], encoding := .amino }

/-- A value of a registered type as bytes. -/
def pack (name : String) (body : Bytes) : Bytes :=
  typePrefix name ++ body

/-- A transaction as bytes, under one of the standard names. -/
def encode (name : String) (tx : StdTx) : Bytes :=
  let value := pack name (StdTx.layout.write tx)
  Wire.Varint.write value.length ++ value

end ChainIndex.Amino
