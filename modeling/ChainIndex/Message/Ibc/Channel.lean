import ChainIndex.Message.Ibc.Basic

/-!
# Inter-chain messages that open and close channels
-/

namespace ChainIndex.Message.Ibc

open Wire (Bytes Field Layout)

structure ChannelOpenInit where
  portId : String := ""
  channel : Option Channel := none
  signer : String := ""
deriving DecidableEq, Repr, Inhabited

def ChannelOpenInit.layout : Layout ChannelOpenInit where
  name := "MsgChannelOpenInit"
  empty := {}
  fields := [
    .single .text 1 "port_id" portId fun m v => { m with portId := v },
    .message Channel.layout 2 "channel" channel fun m v => { m with channel := v },
    .single .text 3 "signer" signer fun m v => { m with signer := v }]

structure ChannelOpenTry where
  portId : String := ""
  previousChannelId : String := ""
  channel : Option Channel := none
  counterpartyVersion : String := ""
  proofInit : Bytes := []
  proofHeight : Option Height := none
  signer : String := ""
deriving DecidableEq, Repr, Inhabited

def ChannelOpenTry.layout : Layout ChannelOpenTry where
  name := "MsgChannelOpenTry"
  empty := {}
  fields := [
    .single .text 1 "port_id" portId fun m v => { m with portId := v },
    .single .text 2 "previous_channel_id" previousChannelId
      fun m v => { m with previousChannelId := v },
    .message Channel.layout 3 "channel" channel fun m v => { m with channel := v },
    .single .text 4 "counterparty_version" counterpartyVersion
      fun m v => { m with counterpartyVersion := v },
    .single .blob 5 "proof_init" proofInit fun m v => { m with proofInit := v },
    .message Height.layout 6 "proof_height" proofHeight fun m v => { m with proofHeight := v },
    .single .text 7 "signer" signer fun m v => { m with signer := v }]

structure ChannelOpenAck where
  portId : String := ""
  channelId : String := ""
  counterpartyChannelId : String := ""
  counterpartyVersion : String := ""
  proofTry : Bytes := []
  proofHeight : Option Height := none
  signer : String := ""
deriving DecidableEq, Repr, Inhabited

def ChannelOpenAck.layout : Layout ChannelOpenAck where
  name := "MsgChannelOpenAck"
  empty := {}
  fields := [
    .single .text 1 "port_id" portId fun m v => { m with portId := v },
    .single .text 2 "channel_id" channelId fun m v => { m with channelId := v },
    .single .text 3 "counterparty_channel_id" counterpartyChannelId
      fun m v => { m with counterpartyChannelId := v },
    .single .text 4 "counterparty_version" counterpartyVersion
      fun m v => { m with counterpartyVersion := v },
    .single .blob 5 "proof_try" proofTry fun m v => { m with proofTry := v },
    .message Height.layout 6 "proof_height" proofHeight fun m v => { m with proofHeight := v },
    .single .text 7 "signer" signer fun m v => { m with signer := v }]

structure ChannelOpenConfirm where
  portId : String := ""
  channelId : String := ""
  proofAck : Bytes := []
  proofHeight : Option Height := none
  signer : String := ""
deriving DecidableEq, Repr, Inhabited

def ChannelOpenConfirm.layout : Layout ChannelOpenConfirm where
  name := "MsgChannelOpenConfirm"
  empty := {}
  fields := [
    .single .text 1 "port_id" portId fun m v => { m with portId := v },
    .single .text 2 "channel_id" channelId fun m v => { m with channelId := v },
    .single .blob 3 "proof_ack" proofAck fun m v => { m with proofAck := v },
    .message Height.layout 4 "proof_height" proofHeight fun m v => { m with proofHeight := v },
    .single .text 5 "signer" signer fun m v => { m with signer := v }]

structure ChannelCloseInit where
  portId : String := ""
  channelId : String := ""
  signer : String := ""
deriving DecidableEq, Repr, Inhabited

def ChannelCloseInit.layout : Layout ChannelCloseInit where
  name := "MsgChannelCloseInit"
  empty := {}
  fields := [
    .single .text 1 "port_id" portId fun m v => { m with portId := v },
    .single .text 2 "channel_id" channelId fun m v => { m with channelId := v },
    .single .text 3 "signer" signer fun m v => { m with signer := v }]

structure ChannelCloseConfirm where
  portId : String := ""
  channelId : String := ""
  proofInit : Bytes := []
  proofHeight : Option Height := none
  signer : String := ""
deriving DecidableEq, Repr, Inhabited

def ChannelCloseConfirm.layout : Layout ChannelCloseConfirm where
  name := "MsgChannelCloseConfirm"
  empty := {}
  fields := [
    .single .text 1 "port_id" portId fun m v => { m with portId := v },
    .single .text 2 "channel_id" channelId fun m v => { m with channelId := v },
    .single .blob 3 "proof_init" proofInit fun m v => { m with proofInit := v },
    .message Height.layout 4 "proof_height" proofHeight fun m v => { m with proofHeight := v },
    .single .text 5 "signer" signer fun m v => { m with signer := v }]

def channelOpenInit (payload : Bytes) : Mapped Event := do
  let m ← readAs ChannelOpenInit.layout "MsgChannelOpenInit" payload
  return signed .ibcChannelOpenInit m.signer
    |>.withText "port_id" m.portId
    |>.withChannel m.channel

def channelOpenTry (payload : Bytes) : Mapped Event := do
  let m ← readAs ChannelOpenTry.layout "MsgChannelOpenTry" payload
  return signed .ibcChannelOpenTry m.signer
    |>.withText "port_id" m.portId
    |>.withText "previous_channel_id" m.previousChannelId
    |>.withChannel m.channel
    |>.withText "counterparty_version" m.counterpartyVersion
    |>.withProof "proof_init" m.proofInit
    |>.withHeight "proof_height" m.proofHeight

def channelOpenAck (payload : Bytes) : Mapped Event := do
  let m ← readAs ChannelOpenAck.layout "MsgChannelOpenAck" payload
  return signed .ibcChannelOpenAck m.signer
    |>.withText "port_id" m.portId
    |>.withText "channel_id" m.channelId
    |>.withText "counterparty_channel_id" m.counterpartyChannelId
    |>.withText "counterparty_version" m.counterpartyVersion
    |>.withProof "proof_try" m.proofTry
    |>.withHeight "proof_height" m.proofHeight

def channelOpenConfirm (payload : Bytes) : Mapped Event := do
  let m ← readAs ChannelOpenConfirm.layout "MsgChannelOpenConfirm" payload
  return signed .ibcChannelOpenConfirm m.signer
    |>.withText "port_id" m.portId
    |>.withText "channel_id" m.channelId
    |>.withProof "proof_ack" m.proofAck
    |>.withHeight "proof_height" m.proofHeight

def channelCloseInit (payload : Bytes) : Mapped Event := do
  let m ← readAs ChannelCloseInit.layout "MsgChannelCloseInit" payload
  return signed .ibcChannelCloseInit m.signer
    |>.withText "port_id" m.portId
    |>.withText "channel_id" m.channelId

def channelCloseConfirm (payload : Bytes) : Mapped Event := do
  let m ← readAs ChannelCloseConfirm.layout "MsgChannelCloseConfirm" payload
  return signed .ibcChannelCloseConfirm m.signer
    |>.withText "port_id" m.portId
    |>.withText "channel_id" m.channelId
    |>.withProof "proof_init" m.proofInit
    |>.withHeight "proof_height" m.proofHeight

end ChainIndex.Message.Ibc
