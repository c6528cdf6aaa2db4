import ChainIndex.Message.Context

/-!
# Messages of the bank module
-/

namespace ChainIndex.Message.Bank

open Wire (Bytes Field Layout)

structure Send where
  sender : Bytes := []
  recipient : Bytes := []
  amount : List Coin := []
deriving DecidableEq, Repr, Inhabited

def Send.layout : Layout Send where
  name := "MsgSend"
  empty := {}
  fields := [
    .single .blob 1 "from_address" sender fun m v => { m with sender := v },
    .single .blob 2 "to_address" recipient fun m v => { m with recipient := v },
    .messages Coin.layout 3 "amount" amount fun m v => { m with amount := v }]

/-- One side of a send with many sides. -/
structure Side where
  address : Bytes := []
  coins : List Coin := []
deriving DecidableEq, Repr, Inhabited

def Side.layout : Layout Side where
  name := "BankIo"
  empty := {}
  fields := [
    .single .blob 1 "address" address fun m v => { m with address := v },
    .messages Coin.layout 2 "coins" coins fun m v => { m with coins := v }]

structure MultiSend where
  inputs : List Side := []
  outputs : List Side := []
deriving DecidableEq, Repr, Inhabited

def MultiSend.layout : Layout MultiSend where
  name := "MsgMultiSend"
  empty := {}
  fields := [
    .messages Side.layout 1 "inputs" inputs fun m v => { m with inputs := v },
    .messages Side.layout 2 "outputs" outputs fun m v => { m with outputs := v }]

def send (c : Context) (payload : Bytes) : Mapped Event := do
  let m ← readAs Send.layout "MsgSend" payload
  let amounts ← coins "amount" m.amount
  let sender ← c.account "from_address" m.sender
  let recipient ← c.account "to_address" m.recipient
  c.addTransfers Event.sendKind "" <| eventOf .bankSend
    |>.withSender { account := sender, amounts }
    |>.withRecipient { account := recipient, amounts }

/-- One side as a movement; `field` is the name of its list. -/
def Side.movement (c : Context) (field : String) (s : Side) : Mapped Movement := do
  let account ← c.account (field ++ ".address") s.address
  let amounts ← Message.coins (field ++ ".coins") s.coins
  return { account, amounts }

def multiSend (c : Context) (payload : Bytes) : Mapped Event := do
  let m ← readAs MultiSend.layout "MsgMultiSend" payload
  let senders ← m.inputs.mapM (Side.movement c "inputs")
  let recipients ← m.outputs.mapM (Side.movement c "outputs")
  c.addTransfers Event.sendKind "" { eventOf .bankMultiSend with senders, recipients }

end ChainIndex.Message.Bank
