import ChainIndex.Query
import ChainIndex.Task.Id
import ChainIndex.Transaction

/-!
# Task responses

A task answers with numbered responses. Each carries a payload, except the last one, which may mark
the end or say what went wrong instead.
-/

namespace ChainIndex

open Json (Codec Field Shape)

/-- One result of a task. -/
inductive Payload where
  | block (b : Block)
  | transaction (t : Transaction)
  | reward (r : Reward)
  | balance (b : Balance)
  | delegations (d : Delegations)
  | mark (m : LatestMark)
deriving Repr

namespace Payload

def typeName : Payload → String
  | block _ => "Block"
  | transaction _ => "Transaction"
  | reward _ => "Reward"
  | balance _ => "AccountBalance"
  | delegations _ => "AccountDelegations"
  | mark _ => "LatestMark"

/-- The payload as JSON, not yet in the order of names. -/
def members : Payload → Json
  | block b => Block.codec.write b
  | transaction t => Transaction.codec.write t
  | reward r => Reward.codec.write r
  | balance b => Balance.codec.write b
  | delegations d => Delegations.codec.write d
  | mark m => LatestMark.codec.write m

/-- The payload of a type whose JSON this is. -/
def ofJson? (type : String) (j : Json) : Option Payload :=
  match type with
  | "Block" => (Block.codec.read j).map block
  | "Transaction" => (Transaction.codec.read j).map transaction
  | "Reward" => (Reward.codec.read j).map reward
  | "AccountBalance" => (Balance.codec.read j).map balance
  | "AccountDelegations" => (Delegations.codec.read j).map delegations
  | "LatestMark" => (LatestMark.codec.read j).map mark
  | _ => none

/-- The payload as JSON in the order of names. -/
def json (p : Payload) : Json :=
  p.members.canonical?.getD p.members

end Payload

structure TaskResponse where
  id : TaskId := default
  type : String := ""
  /-- The number of the response within its task. -/
  order : UInt64 := 0
  final : Bool := false
  error : Option String := none
  payload : Json := .null
deriving Repr, Inhabited

namespace TaskResponse

/-- An error is a record around its message. -/
def errorShape : Shape String where
  empty := ""
  fields := [.required "msg" .text (fun text => text) fun _ v => v]

def isNull : Json → Bool
  | .null => true
  | _ => false

def shape : Shape TaskResponse where
  empty := {}
  fields := [
    .required "id" TaskId.codec id fun r v => { r with id := v },
    .required "type" .text type fun r v => { r with type := v },
    .required "order" .word64 order fun r v => { r with order := v },
    .required "final" .bool final fun r v => { r with final := v },
    .omitted "error" errorShape.codec.option error (fun r v => { r with error := v }) Option.isNone,
    .omitted "payload" .free payload (fun r v => { r with payload := v }) isNull]

def codec : Codec TaskResponse := shape.codec

end TaskResponse

end ChainIndex
