import ChainIndex.Envelope.Basic
import ChainIndex.Json.Parser
import ChainIndex.Node.Error
import ChainIndex.Text.Blank
import ChainIndex.Transaction

/-!
# Forms of answers

What a node answers in the body of a reply, as far as it is read. Numbers arrive as text.

* `Answer.result`: the result inside the envelope that every answer about the chain has.
* `Answer.errorText`: what the body of a failed request says went wrong.
-/

namespace ChainIndex.Answer

open Json (Codec Field Shape)

/-- An error inside an answer; there is none where the message is empty. -/
structure Refusal where
  code : Int := 0
  message : String := ""
  data : String := ""
deriving DecidableEq, Repr

namespace Refusal

/-- A signed 64-bit number. -/
def readCode : Json → Option Int
  | .integer n => if -0x8000000000000000 ≤ n ∧ n < 0x8000000000000000 then some n else none
  | _ => none

def shape : Shape Refusal where
  empty := {}
  fields := [
    .incoming "code" .defaulted readCode fun r v => { r with code := v },
    .incoming "message" .defaulted Codec.text.read fun r v => { r with message := v },
    .incoming "data" .defaulted Codec.text.read fun r v => { r with data := v }]

def isSet (r : Refusal) : Bool :=
  !r.message.isEmpty

/-- The message with the details after it. -/
def fullText (r : Refusal) : String :=
  if r.data.isEmpty then r.message else s!"{r.message}: {r.data}"

end Refusal

/-- A value or null. -/
def orNull {α : Type} (read : Json → Option α) : Json → Option (Option α)
  | .null => some none
  | j => (read j).map some

/-- A list of values. -/
def listOf {α : Type} (read : Json → Option α) : Json → Option (List α)
  | .array items => items.mapM read
  | _ => none

/-- The envelope around an answer about the chain. -/
structure Wrapped (α : Type) where
  result : Option α := none
  refusal : Option Refusal := none

namespace Wrapped

variable {α : Type}

def shape (read : Json → Option α) : Shape (Wrapped α) where
  empty := {}
  fields := [
    .incoming "result" .optional (orNull read) fun w v => { w with result := v },
    .incoming "error" .defaulted (orNull Refusal.shape.read) fun w v => { w with refusal := v }]

/-- The error, if one is set. -/
def error? (w : Wrapped α) : Option Refusal :=
  w.refusal.filter Refusal.isSet

end Wrapped

/-- The value that a body holds; the reason is told if it holds none. -/
def value {α : Type} (read : Json → Option α) (body : String) (reason : String := "") :
    Except NodeError α :=
  match (Json.parse? body).bind read with
  | some a => .ok a
  | none => .error (.unreadable reason)

/-- The result inside the envelope. -/
def result {α : Type} (read : Json → Option α) (body : String) (reason : String := "") :
    Except NodeError α := do
  let w ← value (Wrapped.shape read).read body reason
  match w.error?, w.result with
  | some r, _ => throw (.refused r.code r.fullText)
  | none, some a => return a
  | none, none => throw (.unusable "response carries no result")

/-- A record with one text, which may be missing. -/
def textField (name : String) : Shape String where
  empty := ""
  fields := [.incoming name .defaulted Codec.text.read fun _ v => v]

/-- What the body of a failed request says went wrong: the message of an error in one of the two
known forms, or all of it. -/
def errorText (body : String) : String :=
  let json := Json.parse? body
  let chain := (json.bind (Wrapped.shape Json.canonical?).read).bind Wrapped.error?
  match chain with
  | some r => r.message
  | none =>
    let account := (json.bind (textField "error").read).filter fun text => !text.isEmpty
    account.getD (Text.trimmed body)

/-- The header of a block. -/
structure Header where
  height : String := ""
  chainId : String := ""
  time : String := ""
  /-- The number of transactions, where the oldest generation reports it. -/
  count : Option String := none
deriving DecidableEq, Repr

def Header.shape : Shape Header where
  empty := {}
  fields := [
    .incoming "height" .required Codec.text.read fun h v => { h with height := v },
    .incoming "chain_id" .defaulted Codec.text.read fun h v => { h with chainId := v },
    .incoming "time" .required Codec.text.read fun h v => { h with time := v },
    .incoming "num_txs" .defaulted (orNull Codec.text.read) fun h v => { h with count := v }]

/-- The identity of a block, reduced to its hash. -/
def identity : Shape String :=
  textField "hash"

/-- The transactions of a block, which may be null. -/
def transactions : Shape (List String) where
  empty := []
  fields := [
    .incoming "txs" .defaulted (orNull (listOf Codec.text.read)) fun _ v => v.getD []]

/-- A block with its transactions. -/
structure Body where
  header : Header := {}
  transactions : List String := []
deriving DecidableEq, Repr

def Body.shape : Shape Body where
  empty := {}
  fields := [
    .incoming "header" .required Header.shape.read fun b v => { b with header := v },
    .incoming "data" .defaulted Answer.transactions.read fun b v => { b with transactions := v }]

/-- The answer to a question for one block. -/
structure OneBlock where
  hash : Option String := none
  /-- The hash where older nodes put it. -/
  metaHash : Option String := none
  body : Body := {}
deriving DecidableEq, Repr

namespace OneBlock

/-- A record around the identity of a block. -/
def metaShape : Shape String where
  empty := ""
  fields := [.incoming "block_id" .defaulted identity.read fun _ v => v]

def shape : Shape OneBlock where
  empty := {}
  fields := [
    .incoming "block_id" .defaulted (orNull identity.read) fun b v => { b with hash := v },
    .incoming "block_meta" .defaulted (orNull metaShape.read) fun b v => { b with metaHash := v },
    .incoming "block" .required Body.shape.read fun b v => { b with body := v }]

/-- The hash from wherever it stands. -/
def anyHash (b : OneBlock) : String :=
  (b.hash.orElse fun _ => b.metaHash).getD ""

end OneBlock

/-- What is said of one block in an answer about many. -/
structure Meta where
  hash : String := ""
  header : Header := {}
  count : Option String := none
deriving DecidableEq, Repr

def Meta.shape : Shape Meta where
  empty := {}
  fields := [
    .incoming "block_id" .defaulted identity.read fun m v => { m with hash := v },
    .incoming "header" .required Header.shape.read fun m v => { m with header := v },
    .incoming "num_txs" .defaulted (orNull Codec.text.read) fun m v => { m with count := v }]

/-- The answer to a question for many blocks. -/
def metas : Shape (List Meta) where
  empty := []
  fields := [
    .incoming "last_height" .defaulted Codec.text.read fun ms _ => ms,
    .incoming "block_metas" .defaulted (listOf Meta.shape.read) fun _ v => v]

/-- One page of found transactions. -/
structure Found where
  transactions : List RawTransaction := []
  /-- How many there are on all pages; empty if the node does not say. -/
  total : String := ""
deriving DecidableEq, Repr

def Found.shape : Shape Found where
  empty := {}
  fields := [
    .incoming "txs" .defaulted (listOf RawTransaction.codec.read)
      fun f v => { f with transactions := v },
    .incoming "total_count" .defaulted Codec.text.read fun f v => { f with total := v }]

/-- An amount of a denomination. -/
def coin : Shape Coin where
  empty := {}
  fields := [
    .incoming "denom" .required Codec.text.read fun c v => { c with denom := v },
    .incoming "amount" .required Codec.text.read fun c v => { c with amount := v }]

/-- A list of amounts, which may be null. -/
def coins (j : Json) : Option (List Coin) :=
  (orNull (listOf coin.read) j).map fun cs => cs.getD []

/-- An answer about an account: a height that is not used, and a result that may be missing. -/
def account {α : Type} (empty : α) (read : Json → Option α) : Shape α where
  empty
  fields := [
    .incoming "height" .defaulted Codec.text.read fun a _ => a,
    .incoming "result" .defaulted read fun _ v => v]

def rewards : Shape (List Coin) :=
  let total : Shape (List Coin) :=
    { empty := [], fields := [.incoming "total" .defaulted coins fun _ v => v] }
  account [] total.read

def balances : Shape (List Coin) :=
  account [] coins

/-- One delegation; the balance is a coin or, in the oldest generation, a bare number. -/
structure Delegated where
  delegator : String := ""
  validator : String := ""
  shares : String := ""
  balance : Coin := {}
deriving DecidableEq, Repr

def Delegated.shape (balance : Json → Option Coin) : Shape Delegated where
  empty := {}
  fields := [
    .incoming "delegator_address" .required Codec.text.read fun d v => { d with delegator := v },
    .incoming "validator_address" .required Codec.text.read fun d v => { d with validator := v },
    .incoming "shares" .required Codec.text.read fun d v => { d with shares := v },
    .incoming "balance" .required balance fun d v => { d with balance := v }]

/-- The delegations of an account, with balances in one of the two forms. -/
def delegations (balance : Json → Option Coin) : Shape (List Delegated) :=
  account [] fun j => (orNull (listOf (Delegated.shape balance).read) j).map fun ds => ds.getD []

end ChainIndex.Answer
