import ChainIndex.Message.Context

/-!
# Messages of the crisis module
-/

namespace ChainIndex.Message.Crisis

open Wire (Bytes Field Layout)

structure VerifyInvariant where
  sender : Bytes := []
  moduleName : String := ""
  route : String := ""
deriving DecidableEq, Repr, Inhabited

def VerifyInvariant.layout : Layout VerifyInvariant where
  name := "MsgVerifyInvariant"
  empty := {}
  fields := [
    .single .blob 1 "sender" sender fun m v => { m with sender := v },
    .single .text 2 "invariant_module_name" moduleName fun m v => { m with moduleName := v },
    .single .text 3 "invariant_route" route fun m v => { m with route := v }]

def verifyInvariant (c : Context) (payload : Bytes) : Mapped Event := do
  let m ← readAs VerifyInvariant.layout "MsgVerifyInvariant" payload
  let sender ← c.account "sender" m.sender
  return eventOf .crisisVerifyInvariant
    |>.withText "invariant_route" m.route
    |>.withText "invariant_module_name" m.moduleName
    |>.withSender { account := sender }

end ChainIndex.Message.Crisis
