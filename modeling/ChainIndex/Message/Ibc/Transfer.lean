import ChainIndex.Message.Ibc.Basic

/-!
# Transfers between chains
-/

namespace ChainIndex.Message.Ibc

open Wire (Bytes Field Layout)

structure Transfer where
  sourcePort : String := ""
  sourceChannel : String := ""
  token : Option Coin := none
  sender : String := ""
  receiver : String := ""
  timeoutHeight : Option Height := none
  timeoutTimestamp : UInt64 := 0
deriving DecidableEq, Repr, Inhabited

def Transfer.layout : Layout Transfer where
  name := "MsgTransfer"
  empty := {}
  fields := [
    .single .text 1 "source_port" sourcePort fun m v => { m with sourcePort := v },
    .single .text 2 "source_channel" sourceChannel fun m v => { m with sourceChannel := v },
    .message Coin.layout 3 "token" token fun m v => { m with token := v },
    .single .text 4 "sender" sender fun m v => { m with sender := v },
    .single .text 5 "receiver" receiver fun m v => { m with receiver := v },
    .message Height.layout 6 "timeout_height" timeoutHeight
      fun m v => { m with timeoutHeight := v },
    .single .word64 7 "timeout_timestamp" timeoutTimestamp
      fun m v => { m with timeoutTimestamp := v }]

def transfer (payload : Bytes) : Mapped Event := do
  let m ← readAs Transfer.layout "MsgTransfer" payload
  let token ← requiredCoin "token" m.token
  let sender : Account := { id := m.sender }
  let receiver : Account := { id := m.receiver }
  return eventOf .ibcTransfer
    |>.withNode "sender" sender
    |>.withNode "receiver" receiver
    |>.withSender { account := sender, amounts := [token] }
    |>.withRecipient { account := receiver, amounts := [token] }
    |>.withText "source_port" m.sourcePort
    |>.withText "source_channel" m.sourceChannel
    |>.withHeight "timeout_height" m.timeoutHeight
    |>.withText "timeout_stamp" (toString m.timeoutTimestamp.toNat)

end ChainIndex.Message.Ibc
