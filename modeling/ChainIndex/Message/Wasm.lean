import ChainIndex.Message.Context
import ChainIndex.Text.Base64

/-!
# Messages about smart contracts

A contract is called with a JSON document, which is carried as bytes.
-/

namespace ChainIndex.Message.Wasm

open Wire (Bytes Field Layout)

structure StoreCode where
  sender : Bytes := []
  code : Bytes := []
deriving DecidableEq, Repr, Inhabited

def StoreCode.layout : Layout StoreCode where
  name := "MsgStoreCode"
  empty := {}
  fields := [
    .single .blob 1 "sender" sender fun m v => { m with sender := v },
    .single .blob 2 "wasm_byte_code" code fun m v => { m with code := v }]

structure Execute where
  sender : Bytes := []
  contract : Bytes := []
  call : Bytes := []
  coins : List Coin := []
deriving DecidableEq, Repr, Inhabited

def Execute.layout : Layout Execute where
  name := "MsgExecuteContract"
  empty := {}
  fields := [
    .single .blob 1 "sender" sender fun m v => { m with sender := v },
    .single .blob 2 "contract" contract fun m v => { m with contract := v },
    .single .blob 3 "execute_msg" call fun m v => { m with call := v },
    .messages Coin.layout 4 "coins" coins fun m v => { m with coins := v }]

/-- The form in which the owner may migrate the contract or nobody may. -/
structure OwnedInstantiate where
  owner : Bytes := []
  codeId : UInt64 := 0
  call : Bytes := []
  coins : List Coin := []
  migratable : Bool := false
deriving DecidableEq, Repr, Inhabited

def OwnedInstantiate.layout : Layout OwnedInstantiate where
  name := "AminoMsgInstantiateContract"
  empty := {}
  fields := [
    .single .blob 1 "owner" owner fun m v => { m with owner := v },
    .single .word64 2 "code_id" codeId fun m v => { m with codeId := v },
    .single .blob 3 "init_msg" call fun m v => { m with call := v },
    .messages Coin.layout 4 "init_coins" coins fun m v => { m with coins := v },
    .single .bool 5 "migratable" migratable fun m v => { m with migratable := v }]

/-- The form in which an administrator may migrate the contract. -/
structure AdministeredInstantiate where
  sender : Bytes := []
  admin : Bytes := []
  codeId : UInt64 := 0
  call : Bytes := []
  coins : List Coin := []
deriving DecidableEq, Repr, Inhabited

def AdministeredInstantiate.layout : Layout AdministeredInstantiate where
  name := "ProtoMsgInstantiateContract"
  empty := {}
  fields := [
    .single .blob 1 "sender" sender fun m v => { m with sender := v },
    .single .blob 2 "admin" admin fun m v => { m with admin := v },
    .single .word64 3 "code_id" codeId fun m v => { m with codeId := v },
    .single .blob 4 "init_msg" call fun m v => { m with call := v },
    .messages Coin.layout 5 "init_coins" coins fun m v => { m with coins := v }]

structure Migrate where
  owner : Bytes := []
  contract : Bytes := []
  newCodeId : UInt64 := 0
  call : Bytes := []
deriving DecidableEq, Repr, Inhabited

def Migrate.layout : Layout Migrate where
  name := "MsgMigrateContract"
  empty := {}
  fields := [
    .single .blob 1 "owner" owner fun m v => { m with owner := v },
    .single .blob 2 "contract" contract fun m v => { m with contract := v },
    .single .word64 3 "new_code_id" newCodeId fun m v => { m with newCodeId := v },
    .single .blob 4 "migrate_msg" call fun m v => { m with call := v }]

structure UpdateOwner where
  owner : Bytes := []
  newOwner : Bytes := []
  contract : Bytes := []
deriving DecidableEq, Repr, Inhabited

def UpdateOwner.layout : Layout UpdateOwner where
  name := "MsgUpdateContractOwner"
  empty := {}
  fields := [
    .single .blob 1 "owner" owner fun m v => { m with owner := v },
    .single .blob 2 "new_owner" newOwner fun m v => { m with newOwner := v },
    .single .blob 3 "contract" contract fun m v => { m with contract := v }]

def execute (c : Context) (payload : Bytes) : Mapped Event := do
  let m ← readAs Execute.layout "MsgExecuteContract" payload
  let sender ← c.account "sender" m.sender
  let contract ← c.account "contract" m.contract
  let amounts ← coins "coins" m.coins
  return eventOf .wasmExecuteContract
    |>.withText "contract" contract.id
    |>.withText "execute_message" (Text.Utf8.lossy m.call)
    |>.withSender { account := sender, amounts }

def storeCode (c : Context) (payload : Bytes) : Mapped Event := do
  let m ← readAs StoreCode.layout "MsgStoreCode" payload
  let sender ← c.account "sender" m.sender
  return eventOf .wasmStoreCode
    |>.withText "wasm_byte_code" (Text.Base64.encode m.code)
    |>.withSender { account := sender }

def updateOwner (c : Context) (payload : Bytes) : Mapped Event := do
  let m ← readAs UpdateOwner.layout "MsgUpdateContractOwner" payload
  let contract ← c.account "contract" m.contract
  let newOwner ← c.account "new_owner" m.newOwner
  let owner ← c.account "owner" m.owner
  return eventOf .wasmUpdateContractOwner
    |>.withText "contract" contract.id
    |>.withNode "new_owner" newOwner
    |>.withNode "owner" owner

/-- What both forms of an instantiation say. -/
structure Instantiate where
  owner : Account
  admin : Option Account
  migratable : Bool
  codeId : UInt64
  call : Bytes
  coins : List Coin

def readInstantiate (c : Context) (payload : Bytes) : Mapped Instantiate :=
  match c.encoding with
  | .amino => do
    let m ← readAs OwnedInstantiate.layout "MsgInstantiateContract" payload
    let owner ← c.account "owner" m.owner
    return { owner, admin := none, migratable := m.migratable, codeId := m.codeId, call := m.call,
             coins := m.coins }
  | .proto => do
    let m ← readAs AdministeredInstantiate.layout "MsgInstantiateContract" payload
    let admin ← if m.admin.isEmpty then pure none else some <$> c.account "admin" m.admin
    let owner ← c.account "sender" m.sender
    return { owner, admin, migratable := admin.isSome, codeId := m.codeId, call := m.call,
             coins := m.coins }

/-- Adds the coins that a contract starts with, each under its number. -/
def withInitCoins (amounts : List Amount) (e : Event) : Event :=
  amounts.zipIdx.foldl (fun e (a, i) => e.withAmount s!"init_coin_{i}" a) e

def instantiate (c : Context) (payload : Bytes) : Mapped Event := do
  let m ← readInstantiate c payload
  let amounts ← coins "init_coins" m.coins
  let e := eventOf .wasmInstantiateContract
    |>.withText "migratable" (if m.migratable then "true" else "false")
    |>.withText "code_id" (toString m.codeId.toNat)
    |>.withText "init_msg" (Text.Utf8.lossy m.call)
    |>.withNode "owner" m.owner
  let e := match m.admin with
    | some admin => e.withNode "admin" admin
    | none => e
  return withInitCoins amounts e

def migrate (c : Context) (payload : Bytes) : Mapped Event := do
  let m ← readAs Migrate.layout "MsgMigrateContract" payload
  let contract ← c.account "contract" m.contract
  let owner ← c.account "owner" m.owner
  return eventOf .wasmMigrateContract
    |>.withText "contract" contract.id
    |>.withText "new_code_id" (toString m.newCodeId.toNat)
    |>.withText "migrate_msg" (Text.Utf8.lossy m.call)
    |>.withNode "owner" owner

end ChainIndex.Message.Wasm
