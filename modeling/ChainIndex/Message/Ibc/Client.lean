import ChainIndex.Message.Ibc.Basic

/-!
# Inter-chain messages about light clients
-/

namespace ChainIndex.Message.Ibc

open Wire (Bytes Field Layout)

structure CreateClient where
  clientState : Option Protobuf.Packed := none
  consensusState : Option Protobuf.Packed := none
  signer : String := ""
deriving DecidableEq, Repr, Inhabited

def CreateClient.layout : Layout CreateClient where
  name := "MsgCreateClient"
  empty := {}
  fields := [
    .message Protobuf.Packed.layout 1 "client_state" clientState
      fun m v => { m with clientState := v },
    .message Protobuf.Packed.layout 2 "consensus_state" consensusState
      fun m v => { m with consensusState := v },
    .single .text 3 "signer" signer fun m v => { m with signer := v }]

structure UpdateClient where
  clientId : String := ""
  header : Option Protobuf.Packed := none
  signer : String := ""
deriving DecidableEq, Repr, Inhabited

def UpdateClient.layout : Layout UpdateClient where
  name := "MsgUpdateClient"
  empty := {}
  fields := [
    .single .text 1 "client_id" clientId fun m v => { m with clientId := v },
    .message Protobuf.Packed.layout 2 "header" header fun m v => { m with header := v },
    .single .text 3 "signer" signer fun m v => { m with signer := v }]

structure UpgradeClient where
  clientId : String := ""
  clientState : Option Protobuf.Packed := none
  consensusState : Option Protobuf.Packed := none
  proofUpgradeClient : Bytes := []
  proofUpgradeConsensusState : Bytes := []
  signer : String := ""
deriving DecidableEq, Repr, Inhabited

def UpgradeClient.layout : Layout UpgradeClient where
  name := "MsgUpgradeClient"
  empty := {}
  fields := [
    .single .text 1 "client_id" clientId fun m v => { m with clientId := v },
    .message Protobuf.Packed.layout 2 "client_state" clientState
      fun m v => { m with clientState := v },
    .message Protobuf.Packed.layout 3 "consensus_state" consensusState
      fun m v => { m with consensusState := v },
    .single .blob 4 "proof_upgrade_client" proofUpgradeClient
      fun m v => { m with proofUpgradeClient := v },
    .single .blob 5 "proof_upgrade_consensus_state" proofUpgradeConsensusState
      fun m v => { m with proofUpgradeConsensusState := v },
    .single .text 6 "signer" signer fun m v => { m with signer := v }]

structure SubmitMisbehaviour where
  clientId : String := ""
  misbehaviour : Option Protobuf.Packed := none
  signer : String := ""
deriving DecidableEq, Repr, Inhabited

def SubmitMisbehaviour.layout : Layout SubmitMisbehaviour where
  name := "MsgSubmitMisbehaviour"
  empty := {}
  fields := [
    .single .text 1 "client_id" clientId fun m v => { m with clientId := v },
    .message Protobuf.Packed.layout 2 "misbehaviour" misbehaviour
      fun m v => { m with misbehaviour := v },
    .single .text 3 "signer" signer fun m v => { m with signer := v }]

def createClient (payload : Bytes) : Mapped Event := do
  let m ← readAs CreateClient.layout "MsgCreateClient" payload
  return signed .ibcCreateClient m.signer
    |>.withPacked "client_state" m.clientState
    |>.withPacked "consensus_state" m.consensusState

def updateClient (payload : Bytes) : Mapped Event := do
  let m ← readAs UpdateClient.layout "MsgUpdateClient" payload
  return signed .ibcUpdateClient m.signer
    |>.withText "client_id" m.clientId
    |>.withPacked "header" m.header

def upgradeClient (payload : Bytes) : Mapped Event := do
  let m ← readAs UpgradeClient.layout "MsgUpgradeClient" payload
  return signed .ibcUpgradeClient m.signer
    |>.withText "client_id" m.clientId
    |>.withPacked "client_state" m.clientState
    |>.withPacked "consensus_state" m.consensusState
    |>.withProof "proof_upgrade_client" m.proofUpgradeClient
    |>.withProof "proof_upgrade_consensus_state" m.proofUpgradeConsensusState

def submitMisbehaviour (payload : Bytes) : Mapped Event := do
  let m ← readAs SubmitMisbehaviour.layout "MsgSubmitMisbehaviour" payload
  return signed .ibcSubmitMisbehaviour m.signer
    |>.withText "client_id" m.clientId
    |>.withPacked "misbehaviour" m.misbehaviour

end ChainIndex.Message.Ibc
