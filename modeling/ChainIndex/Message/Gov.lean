import ChainIndex.Message.Context

/-!
# Messages of the governance module
-/

namespace ChainIndex.Message.Gov

open Wire (Bytes Field Layout)

structure Deposit where
  proposalId : UInt64 := 0
  depositor : Bytes := []
  amount : List Coin := []
deriving DecidableEq, Repr, Inhabited

def Deposit.layout : Layout Deposit where
  name := "MsgDeposit"
  empty := {}
  fields := [
    .single .word64 1 "proposal_id" proposalId fun m v => { m with proposalId := v },
    .single .blob 2 "depositor" depositor fun m v => { m with depositor := v },
    .messages Coin.layout 3 "amount" amount fun m v => { m with amount := v }]

structure Vote where
  proposalId : UInt64 := 0
  voter : Bytes := []
  option : Int32 := 0
deriving DecidableEq, Repr, Inhabited

def Vote.layout : Layout Vote where
  name := "MsgVote"
  empty := {}
  fields := [
    .single .word64 1 "proposal_id" proposalId fun m v => { m with proposalId := v },
    .single .blob 2 "voter" voter fun m v => { m with voter := v },
    .single .int32 3 "option" option fun m v => { m with option := v }]

structure SubmitProposal where
  /-- A wrapped value. -/
  content : Bytes := []
  initialDeposit : List Coin := []
  proposer : Bytes := []
deriving DecidableEq, Repr, Inhabited

def SubmitProposal.layout : Layout SubmitProposal where
  name := "MsgSubmitProposal"
  empty := {}
  fields := [
    .single .blob 1 "content" content fun m v => { m with content := v },
    .messages Coin.layout 2 "initial_deposit" initialDeposit
      fun m v => { m with initialDeposit := v },
    .single .blob 3 "proposer" proposer fun m v => { m with proposer := v }]

/-- What every kind of proposal starts with. -/
structure Content where
  title : String := ""
  description : String := ""
deriving DecidableEq, Repr, Inhabited

def Content.layout : Layout Content where
  name := "ProposalContent"
  empty := {}
  fields := [
    .single .text 1 "title" title fun m v => { m with title := v },
    .single .text 2 "description" description fun m v => { m with description := v }]

def deposit (c : Context) (payload : Bytes) : Mapped Event := do
  let m ← readAs Deposit.layout "MsgDeposit" payload
  let depositor ← c.account "depositor" m.depositor
  let amounts ← coins "amount" m.amount
  c.addTransfers Event.sendKind "" <| eventOf .govDeposit
    |>.withNode "depositor" depositor
    |>.withText "proposalID" (toString m.proposalId.toNat)
    |>.withSender { account := depositor, amounts }
    |> withNumbered "deposit" amounts

/-- The name of a vote; a number without a name stands for itself. -/
def optionText (option : Int32) : String :=
  match option.toInt with
  | 0 => "Empty"
  | 1 => "Yes"
  | 2 => "Abstain"
  | 3 => "No"
  | 4 => "NoWithVeto"
  | n => toString n

def vote (c : Context) (payload : Bytes) : Mapped Event := do
  let m ← readAs Vote.layout "MsgVote" payload
  let voter ← c.account "voter" m.voter
  return eventOf .govVote
    |>.withNode "voter" voter
    |>.withText "proposalID" (toString m.proposalId.toNat)
    |>.withText "option" (optionText m.option)

/-- The name of a type, after the last slash or point of its tag. -/
def typeName (typeTag : String) : String :=
  String.ofList (Text.afterLast (fun c => c == '/' || c == '.') typeTag.toList)

/-- The module that a proposal of this type concerns, if it is known. -/
def routeOf (name : String) : String :=
  match name with
  | "TextProposal" => "gov"
  | "ParameterChangeProposal" => "params"
  | "CommunityPoolSpendProposal" => "distribution"
  | "SoftwareUpgradeProposal" | "CancelSoftwareUpgradeProposal" => "upgrade"
  | "TaxRateUpdateProposal" | "RewardWeightUpdateProposal" => "treasury"
  | "ClientUpdateProposal" => "client"
  | _ => ""

/-- The name of a proposal's type without its ending. -/
def proposalType (name : String) : String :=
  let ending := "Proposal".toList
  let cs := name.toList
  if ending.isSuffixOf cs then String.ofList (cs.take (cs.length - ending.length)) else name

/-- The facts of a proposal's content. -/
def addContent (content : RawMessage) (e : Event) : Mapped Event := do
  let m ← readAs Content.layout "ProposalContent" content.payload
  let name := typeName content.typeTag
  let e := e
    |>.withText "proposal_route" (routeOf name)
    |>.withText "proposal_type" (proposalType name)
  let e := if m.title.isEmpty then e else e.withText "title" m.title
  let e := if m.description.isEmpty then e else e.withText "description" m.description
  return e.withText "content" content.typeTag

def submitProposal (c : Context) (payload : Bytes) : Mapped Event := do
  let m ← readAs SubmitProposal.layout "MsgSubmitProposal" payload
  let proposer ← c.account "proposer" m.proposer
  let amounts ← coins "initial_deposit" m.initialDeposit
  let e := eventOf .govSubmitProposal
    |>.withNode "proposer" proposer
    |>.withSender { account := proposer, amounts }
    |> withNumbered "initial_deposit" amounts
  let e ← if m.content.isEmpty then pure e else do addContent (← c.unpack m.content) e
  c.addTransfers Event.sendKind "" e

end ChainIndex.Message.Gov
