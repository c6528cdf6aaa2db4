import ChainIndex.Message.Ibc.Basic

/-!
# Inter-chain messages that carry packets
-/

namespace ChainIndex.Message.Ibc

open Wire (Bytes Field Layout)

structure RecvPacket where
  packet : Option Packet := none
  proofCommitment : Bytes := []
  proofHeight : Option Height := none
  signer : String := ""
deriving DecidableEq, Repr, Inhabited

def RecvPacket.layout : Layout RecvPacket where
  name := "MsgRecvPacket"
  empty := {}
  fields := [
    .message Packet.layout 1 "packet" packet fun m v => { m with packet := v },
    .single .blob 2 "proof_commitment" proofCommitment fun m v => { m with proofCommitment := v },
    .message Height.layout 3 "proof_height" proofHeight fun m v => { m with proofHeight := v },
    .single .text 4 "signer" signer fun m v => { m with signer := v }]

structure Timeout where
  packet : Option Packet := none
  proofUnreceived : Bytes := []
  proofHeight : Option Height := none
  nextSequenceRecv : UInt64 := 0
  signer : String := ""
deriving DecidableEq, Repr, Inhabited

def Timeout.layout : Layout Timeout where
  name := "MsgTimeout"
  empty := {}
  fields := [
    .message Packet.layout 1 "packet" packet fun m v => { m with packet := v },
    .single .blob 2 "proof_unreceived" proofUnreceived fun m v => { m with proofUnreceived := v },
    .message Height.layout 3 "proof_height" proofHeight fun m v => { m with proofHeight := v },
    .single .word64 4 "next_sequence_recv" nextSequenceRecv
      fun m v => { m with nextSequenceRecv := v },
    .single .text 5 "signer" signer fun m v => { m with signer := v }]

structure Acknowledgement where
  packet : Option Packet := none
  acknowledgement : Bytes := []
  proofAcked : Bytes := []
  proofHeight : Option Height := none
  signer : String := ""
deriving DecidableEq, Repr, Inhabited

def Acknowledgement.layout : Layout Acknowledgement where
  name := "MsgAcknowledgement"
  empty := {}
  fields := [
    .message Packet.layout 1 "packet" packet fun m v => { m with packet := v },
    .single .blob 2 "acknowledgement" acknowledgement fun m v => { m with acknowledgement := v },
    .single .blob 3 "proof_acked" proofAcked fun m v => { m with proofAcked := v },
    .message Height.layout 4 "proof_height" proofHeight fun m v => { m with proofHeight := v },
    .single .text 5 "signer" signer fun m v => { m with signer := v }]

def recvPacket (payload : Bytes) : Mapped Event := do
  let m ← readAs RecvPacket.layout "MsgRecvPacket" payload
  return signed .ibcRecvPacket m.signer
    |>.withPacket m.packet
    |>.withProof "proof_commitment" m.proofCommitment
    |>.withHeight "proof_height" m.proofHeight

def timeout (payload : Bytes) : Mapped Event := do
  let m ← readAs Timeout.layout "MsgTimeout" payload
  return signed .ibcTimeout m.signer
    |>.withPacket m.packet
    |>.withProof "proof_unreceived" m.proofUnreceived
    |>.withHeight "proof_height" m.proofHeight
    |>.withText "next_sequence_recv" (toString m.nextSequenceRecv.toNat)

def acknowledgement (payload : Bytes) : Mapped Event := do
  let m ← readAs Acknowledgement.layout "MsgAcknowledgement" payload
  return signed .ibcAcknowledgement m.signer
    |>.withPacket m.packet
    |>.withText "acknowledgement" (Text.Utf8.lossy m.acknowledgement)
    |>.withProof "proof_acked" m.proofAcked
    |>.withHeight "proof_height" m.proofHeight

end ChainIndex.Message.Ibc
