import ChainIndex.Message.Context
import ChainIndex.Message.Timestamp

/-!
# Messages about delegated authority

An account may grant another one the right to send messages in its name, and revoke it. Whoever has
the right wraps such messages in one of its own.
-/

namespace ChainIndex.Message.Authorization

open Wire (Bytes Field Layout)

/-- A grant for a period of nanoseconds. -/
structure PeriodGrant where
  granter : Bytes := []
  grantee : Bytes := []
  /-- A wrapped value. -/
  authorization : Bytes := []
  period : Int64 := 0
deriving DecidableEq, Repr, Inhabited

def PeriodGrant.layout : Layout PeriodGrant where
  name := "AminoMsgGrantAuthorization"
  empty := {}
  fields := [
    .single .blob 1 "granter" granter fun m v => { m with granter := v },
    .single .blob 2 "grantee" grantee fun m v => { m with grantee := v },
    .single .blob 3 "authorization" authorization fun m v => { m with authorization := v },
    .single .int64 4 "period" period fun m v => { m with period := v }]

/-- A right with the time at which it ends. -/
structure Terms where
  /-- A wrapped value. -/
  authorization : Bytes := []
  expiration : Option Timestamp := none
deriving DecidableEq, Repr, Inhabited

def Terms.layout : Layout Terms where
  name := "ProtoGrant"
  empty := {}
  fields := [
    .single .blob 1 "authorization" authorization fun m v => { m with authorization := v },
    .message Timestamp.layout 2 "expiration" expiration fun m v => { m with expiration := v }]

/-- A grant until a point in time. -/
structure ExpiringGrant where
  granter : Bytes := []
  grantee : Bytes := []
  terms : Option Terms := none
deriving DecidableEq, Repr, Inhabited

def ExpiringGrant.layout : Layout ExpiringGrant where
  name := "ProtoMsgGrant"
  empty := {}
  fields := [
    .single .blob 1 "granter" granter fun m v => { m with granter := v },
    .single .blob 2 "grantee" grantee fun m v => { m with grantee := v },
    .message Terms.layout 3 "grant" terms fun m v => { m with terms := v }]

structure Revoke where
  granter : Bytes := []
  grantee : Bytes := []
  type : String := ""
deriving DecidableEq, Repr, Inhabited

def Revoke.layout : Layout Revoke where
  name := "MsgRevokeAuthorization"
  empty := {}
  fields := [
    .single .blob 1 "granter" granter fun m v => { m with granter := v },
    .single .blob 2 "grantee" grantee fun m v => { m with grantee := v },
    .single .text 3 "msg_type" type fun m v => { m with type := v }]

/-- Messages that the grantee sends in the name of others. -/
structure Execute where
  grantee : Bytes := []
  /-- Wrapped values. -/
  messages : List Bytes := []
deriving DecidableEq, Repr, Inhabited

def Execute.layout : Layout Execute where
  name := "MsgExecAuthorized"
  empty := {}
  fields := [
    .single .blob 1 "grantee" grantee fun m v => { m with grantee := v },
    .repeated .blob 2 "msgs" messages fun m v => { m with messages := v }]

/-- The right to send any message of one type. -/
structure Generic where
  type : String := ""
deriving DecidableEq, Repr, Inhabited

def Generic.layout : Layout Generic where
  name := "GenericAuthorization"
  empty := {}
  fields := [.single .text 1 "msg" type fun m v => { m with type := v }]

/-- The type of message that a right covers. -/
def coveredType (c : Context) (authorization : Bytes) : Mapped String := do
  if authorization.isEmpty then return ""
  let a ← c.unpack authorization
  match a.typeTag with
  | "msgauth/SendAuthorization" => return "send"
  | "/cosmos.bank.v1beta1.SendAuthorization" => return "/cosmos.bank.v1beta1.MsgSend"
  | "msgauth/GenericAuthorization" | "/cosmos.authz.v1beta1.GenericAuthorization" =>
    return (← readAs Generic.layout "GenericAuthorization" a.payload).type
  | tag => return tag

/-- A grant with its two accounts and what it covers. -/
def granted (c : Context) (grantee granter authorization : Bytes) : Mapped Event := do
  let grantee ← c.account "grantee" grantee
  let granter ← c.account "granter" granter
  let covered ← coveredType c authorization
  return eventOf .msgauthGrantAuthorization
    |>.withNode "grantee" grantee
    |>.withNode "granter" granter
    |>.withText "type" covered

/-- Nanoseconds as whole seconds, rounded toward zero. -/
def periodText (nanos : Int64) : String :=
  toString (nanos.toInt.tdiv 1000000000) ++ "s"

def grant (c : Context) (payload : Bytes) : Mapped Event :=
  match c.encoding with
  | .amino => do
    let m ← readAs PeriodGrant.layout "MsgGrantAuthorization" payload
    let e ← granted c m.grantee m.granter m.authorization
    return e.withText "period" (periodText m.period)
  | .proto => do
    let m ← readAs ExpiringGrant.layout "MsgGrant" payload
    let terms := m.terms.getD {}
    let e ← granted c m.grantee m.granter terms.authorization
    match terms.expiration.bind Timestamp.text? with
    | some time => return e.withText "expiration" time
    | none => return e

def revoke (c : Context) (payload : Bytes) : Mapped Event := do
  let m ← readAs Revoke.layout "MsgRevokeAuthorization" payload
  let grantee ← c.account "grantee" m.grantee
  let granter ← c.account "granter" m.granter
  return eventOf .msgauthRevokeAuthorization
    |>.withNode "grantee" grantee
    |>.withNode "granter" granter
    |>.withText "type" m.type

/-- The events of wrapped messages, numbered from `index`. -/
def innerEvents (c : Context) (map : RawMessage → Mapped Event) :
    Nat → List Bytes → Mapped (List Event)
  | _, [] => .ok []
  | index, raw :: rest => do
    let e ← (c.unpack raw >>= map).mapError (.inner index)
    return e :: (← innerEvents c map (index + 1) rest)

/-- Maps the wrapped messages with `map?`, which is absent when no further wrapper is allowed. -/
def execute (map? : Option (RawMessage → Mapped Event)) (c : Context) (payload : Bytes) :
    Mapped Event := do
  let m ← readAs Execute.layout "MsgExecAuthorized" payload
  let some map := map? | throw .nestedTooDeep
  let grantee ← c.account "grantee" m.grantee
  let sub ← innerEvents c map 0 m.messages
  return { (eventOf .msgauthExecDelegated).withNode "grantee" grantee with sub }

end ChainIndex.Message.Authorization
