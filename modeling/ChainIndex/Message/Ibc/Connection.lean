import ChainIndex.Message.Ibc.Basic

/-!
# Inter-chain messages that open connections
-/

namespace ChainIndex.Message.Ibc

open Wire (Bytes Field Layout)

structure ConnectionOpenInit where
  clientId : String := ""
  counterparty : Option ConnectionCounterparty := none
  version : Option ConnectionVersion := none
  delayPeriod : UInt64 := 0
  signer : String := ""
deriving DecidableEq, Repr, Inhabited

def ConnectionOpenInit.layout : Layout ConnectionOpenInit where
  name := "MsgConnectionOpenInit"
  empty := {}
  fields := [
    .single .text 1 "client_id" clientId fun m v => { m with clientId := v },
    .message ConnectionCounterparty.layout 2 "counterparty" counterparty
      fun m v => { m with counterparty := v },
    .message ConnectionVersion.layout 3 "version" version fun m v => { m with version := v },
    .single .word64 4 "delay_period" delayPeriod fun m v => { m with delayPeriod := v },
    .single .text 5 "signer" signer fun m v => { m with signer := v }]

structure ConnectionOpenTry where
  clientId : String := ""
  previousConnectionId : String := ""
  clientState : Option Protobuf.Packed := none
  counterparty : Option ConnectionCounterparty := none
  delayPeriod : UInt64 := 0
  counterpartyVersions : List ConnectionVersion := []
  proofHeight : Option Height := none
  proofInit : Bytes := []
  proofClient : Bytes := []
  proofConsensus : Bytes := []
  consensusHeight : Option Height := none
  signer : String := ""
deriving DecidableEq, Repr, Inhabited

def ConnectionOpenTry.layout : Layout ConnectionOpenTry where
  name := "MsgConnectionOpenTry"
  empty := {}
  fields := [
    .single .text 1 "client_id" clientId fun m v => { m with clientId := v },
    .single .text 2 "previous_connection_id" previousConnectionId
      fun m v => { m with previousConnectionId := v },
    .message Protobuf.Packed.layout 3 "client_state" clientState
      fun m v => { m with clientState := v },
    .message ConnectionCounterparty.layout 4 "counterparty" counterparty
      fun m v => { m with counterparty := v },
    .single .word64 5 "delay_period" delayPeriod fun m v => { m with delayPeriod := v },
    .messages ConnectionVersion.layout 6 "counterparty_versions" counterpartyVersions
      fun m v => { m with counterpartyVersions := v },
    .message Height.layout 7 "proof_height" proofHeight fun m v => { m with proofHeight := v },
    .single .blob 8 "proof_init" proofInit fun m v => { m with proofInit := v },
    .single .blob 9 "proof_client" proofClient fun m v => { m with proofClient := v },
    .single .blob 10 "proof_consensus" proofConsensus fun m v => { m with proofConsensus := v },
    .message Height.layout 11 "consensus_height" consensusHeight
      fun m v => { m with consensusHeight := v },
    .single .text 12 "signer" signer fun m v => { m with signer := v }]

structure ConnectionOpenAck where
  connectionId : String := ""
  counterpartyConnectionId : String := ""
  version : Option ConnectionVersion := none
  clientState : Option Protobuf.Packed := none
  proofHeight : Option Height := none
  proofTry : Bytes := []
  proofClient : Bytes := []
  proofConsensus : Bytes := []
  consensusHeight : Option Height := none
  signer : String := ""
deriving DecidableEq, Repr, Inhabited

def ConnectionOpenAck.layout : Layout ConnectionOpenAck where
  name := "MsgConnectionOpenAck"
  empty := {}
  fields := [
    .single .text 1 "connection_id" connectionId fun m v => { m with connectionId := v },
    .single .text 2 "counterparty_connection_id" counterpartyConnectionId
      fun m v => { m with counterpartyConnectionId := v },
    .message ConnectionVersion.layout 3 "version" version fun m v => { m with version := v },
    .message Protobuf.Packed.layout 4 "client_state" clientState
      fun m v => { m with clientState := v },
    .message Height.layout 5 "proof_height" proofHeight fun m v => { m with proofHeight := v },
    .single .blob 6 "proof_try" proofTry fun m v => { m with proofTry := v },
    .single .blob 7 "proof_client" proofClient fun m v => { m with proofClient := v },
    .single .blob 8 "proof_consensus" proofConsensus fun m v => { m with proofConsensus := v },
    .message Height.layout 9 "consensus_height" consensusHeight
      fun m v => { m with consensusHeight := v },
    .single .text 10 "signer" signer fun m v => { m with signer := v }]

structure ConnectionOpenConfirm where
  connectionId : String := ""
  proofAck : Bytes := []
  proofHeight : Option Height := none
  signer : String := ""
deriving DecidableEq, Repr, Inhabited

def ConnectionOpenConfirm.layout : Layout ConnectionOpenConfirm where
  name := "MsgConnectionOpenConfirm"
  empty := {}
  fields := [
    .single .text 1 "connection_id" connectionId fun m v => { m with connectionId := v },
    .single .blob 2 "proof_ack" proofAck fun m v => { m with proofAck := v },
    .message Height.layout 3 "proof_height" proofHeight fun m v => { m with proofHeight := v },
    .single .text 4 "signer" signer fun m v => { m with signer := v }]

def connectionOpenInit (payload : Bytes) : Mapped Event := do
  let m ← readAs ConnectionOpenInit.layout "MsgConnectionOpenInit" payload
  return signed .ibcConnectionOpenInit m.signer
    |>.withText "client_id" m.clientId
    |>.withConnectionVersion m.version
    |>.withText "delay_period" (toString m.delayPeriod.toNat)
    |>.withConnectionCounterparty m.counterparty

def connectionOpenTry (payload : Bytes) : Mapped Event := do
  let m ← readAs ConnectionOpenTry.layout "MsgConnectionOpenTry" payload
  return signed .ibcConnectionOpenTry m.signer
    |>.withText "client_id" m.clientId
    |>.withText "previous_connection_id" m.previousConnectionId
    |>.withPacked "client_state" m.clientState
    |>.withConnectionCounterparty m.counterparty
    |>.withText "delay_period" (toString m.delayPeriod.toNat)
    |>.withAdditional "counterparty_versions"
      (m.counterpartyVersions.map ConnectionVersion.identifier)
    |>.withHeight "proof_height" m.proofHeight
    |>.withProof "proof_init" m.proofInit
    |>.withProof "proof_client" m.proofClient
    |>.withProof "proof_consensus" m.proofConsensus
    |>.withHeight "consensus_height" m.consensusHeight

def connectionOpenAck (payload : Bytes) : Mapped Event := do
  let m ← readAs ConnectionOpenAck.layout "MsgConnectionOpenAck" payload
  return signed .ibcConnectionOpenAck m.signer
    |>.withText "connection_id" m.connectionId
    |>.withText "counterparty_connection_id" m.counterpartyConnectionId
    |>.withConnectionVersion m.version
    |>.withPacked "client_state" m.clientState
    |>.withHeight "proof_height" m.proofHeight
    |>.withProof "proof_try" m.proofTry
    |>.withProof "proof_client" m.proofClient
    |>.withProof "proof_consensus" m.proofConsensus
    |>.withHeight "consensus_height" m.consensusHeight

def connectionOpenConfirm (payload : Bytes) : Mapped Event := do
  let m ← readAs ConnectionOpenConfirm.layout "MsgConnectionOpenConfirm" payload
  return signed .ibcConnectionOpenConfirm m.signer
    |>.withText "connection_id" m.connectionId
    |>.withProof "proof_ack" m.proofAck
    |>.withHeight "proof_height" m.proofHeight

end ChainIndex.Message.Ibc
