import ChainIndex.Envelope.Basic

/-!
# The protobuf encoding

A value of an open type carries a URL that names its actual type. A transaction is its body and its
signing data, each as bytes of their own.

* `Protobuf.unpack`: the type and the bytes of a value.
* `Protobuf.decode`: the envelope of a transaction.
-/

namespace ChainIndex.Protobuf

open Wire (Bytes Field Layout)

/-- A value with the URL of its type. -/
structure Packed where
  typeUrl : String := ""
  value : Bytes := []
deriving DecidableEq, Repr, Inhabited

def Packed.layout : Layout Packed where
  name := "Any"
  empty := {}
  fields := [
    .single .text 1 "type_url" typeUrl fun p v => { p with typeUrl := v },
    .single .blob 2 "value" value fun p v => { p with value := v }]

structure TxRaw where
  body : Bytes := []
  authInfo : Bytes := []
  signatures : List Bytes := []
deriving DecidableEq, Repr, Inhabited

def TxRaw.layout : Layout TxRaw where
  name := "TxRaw"
  empty := {}
  fields := [
    .single .blob 1 "body_bytes" body fun t v => { t with body := v },
    .single .blob 2 "auth_info_bytes" authInfo fun t v => { t with authInfo := v },
    .repeated .blob 3 "signatures" signatures fun t v => { t with signatures := v }]

structure TxBody where
  messages : List Packed := []
  memo : String := ""
  timeoutHeight : UInt64 := 0
deriving DecidableEq, Repr, Inhabited

def TxBody.layout : Layout TxBody where
  name := "TxBody"
  empty := {}
  fields := [
    .messages Packed.layout 1 "messages" messages fun b v => { b with messages := v },
    .single .text 2 "memo" memo fun b v => { b with memo := v },
    .single .word64 3 "timeout_height" timeoutHeight fun b v => { b with timeoutHeight := v }]

structure Fee where
  amount : List Coin := []
  gasLimit : UInt64 := 0
  payer : String := ""
  granter : String := ""
deriving DecidableEq, Repr, Inhabited

def Fee.layout : Layout Fee where
  name := "Fee"
  empty := {}
  fields := [
    .messages Coin.layout 1 "amount" amount fun f v => { f with amount := v },
    .single .word64 2 "gas_limit" gasLimit fun f v => { f with gasLimit := v },
    .single .text 3 "payer" payer fun f v => { f with payer := v },
    .single .text 4 "granter" granter fun f v => { f with granter := v }]

structure AuthInfo where
  fee : Option Fee := none
deriving DecidableEq, Repr, Inhabited

def AuthInfo.layout : Layout AuthInfo where
  name := "AuthInfo"
  empty := {}
  fields := [.message Fee.layout 2 "fee" fee fun a v => { a with fee := v }]

/-- A packed value as a message; the URL may be empty here. -/
def Packed.toMessage (p : Packed) : RawMessage :=
  { typeTag := p.typeUrl, payload := p.value }

/-- The type and the bytes of a value. -/
def unpack (bytes : Bytes) : Except Envelope.Error RawMessage := do
  return (← (Packed.layout.read bytes).mapError (.unreadable .proto)).toMessage

/-- Messages numbered from `index`, each of which has to name its type. -/
def named : Nat → List Packed → Except Envelope.Error (List RawMessage)
  | _, [] => .ok []
  | index, p :: rest => do
    if p.typeUrl.isEmpty then throw (.emptyTypeUrl index)
    return p.toMessage :: (← named (index + 1) rest)

/-- The envelope of a transaction. -/
def decode (bytes : Bytes) : Except Envelope.Error Envelope := do
  let raw ← (TxRaw.layout.read bytes).mapError (.unreadable .proto)
  let body ← (TxBody.layout.read raw.body).mapError (.unreadable .proto)
  let auth ← (AuthInfo.layout.read raw.authInfo).mapError (.unreadable .proto)
  let messages ← named 0 body.messages
  return { messages, memo := body.memo, fee := (auth.fee.map Fee.amount).getD [],
           encoding := .proto }

/-- A transaction as bytes. -/
def encode (body : TxBody) (auth : AuthInfo) (signatures : List Bytes) : Bytes :=
  TxRaw.layout.write
    { body := TxBody.layout.write body, authInfo := AuthInfo.layout.write auth, signatures }

end ChainIndex.Protobuf
