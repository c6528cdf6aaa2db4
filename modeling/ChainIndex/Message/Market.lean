import ChainIndex.Message.Context

/-!
# Messages of the market module
-/

namespace ChainIndex.Message.Market

open Wire (Bytes Field Layout)

structure Swap where
  trader : Bytes := []
  offer : Option Coin := none
  askDenom : String := ""
deriving DecidableEq, Repr, Inhabited

def Swap.layout : Layout Swap where
  name := "MsgSwap"
  empty := {}
  fields := [
    .single .blob 1 "trader" trader fun m v => { m with trader := v },
    .message Coin.layout 2 "offer_coin" offer fun m v => { m with offer := v },
    .single .text 3 "ask_denom" askDenom fun m v => { m with askDenom := v }]

structure SwapSend where
  sender : Bytes := []
  recipient : Bytes := []
  offer : Option Coin := none
  askDenom : String := ""
deriving DecidableEq, Repr, Inhabited

def SwapSend.layout : Layout SwapSend where
  name := "MsgSwapSend"
  empty := {}
  fields := [
    .single .blob 1 "from_address" sender fun m v => { m with sender := v },
    .single .blob 2 "to_address" recipient fun m v => { m with recipient := v },
    .message Coin.layout 3 "offer_coin" offer fun m v => { m with offer := v },
    .single .text 4 "ask_denom" askDenom fun m v => { m with askDenom := v }]

def swap (c : Context) (payload : Bytes) : Mapped Event := do
  let m ← readAs Swap.layout "MsgSwap" payload
  let trader ← c.account "trader" m.trader
  let offer ← requiredCoin "offer_coin" m.offer
  let ask := denomOnly m.askDenom
  c.addTransfers Event.sendKind "" <| eventOf .marketSwap
    |>.withNode "trader" trader
    |>.withAmount "offer" offer
    |>.withAmount "ask" ask
    |>.withSender { account := trader, amounts := [offer, ask] }

def swapSend (c : Context) (payload : Bytes) : Mapped Event := do
  let m ← readAs SwapSend.layout "MsgSwapSend" payload
  let offer ← requiredCoin "offer_coin" m.offer
  let ask := denomOnly m.askDenom
  let sender ← c.account "from_address" m.sender
  let recipient ← c.account "to_address" m.recipient
  c.addTransfers Event.sendKind "" <| eventOf .marketSwapSend
    |>.withAmount "offer" offer
    |>.withAmount "ask" ask
    |>.withSender { account := sender, amounts := [offer] }
    |>.withRecipient { account := recipient, amounts := [ask] }

end ChainIndex.Message.Market
