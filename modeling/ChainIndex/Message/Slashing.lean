import ChainIndex.Message.Context

/-!
# Messages of the slashing module
-/

namespace ChainIndex.Message.Slashing

open Wire (Bytes Field Layout)

structure Unjail where
  validator : Bytes := []
deriving DecidableEq, Repr, Inhabited

def Unjail.layout : Layout Unjail where
  name := "MsgUnjail"
  empty := {}
  fields := [.single .blob 1 "validator_addr" validator fun m v => { m with validator := v }]

def unjail (c : Context) (payload : Bytes) : Mapped Event := do
  let m ← readAs Unjail.layout "MsgUnjail" payload
  let validator ← c.validator "validator_addr" m.validator
  return (eventOf .slashingUnjail).withNode "validator" validator

end ChainIndex.Message.Slashing
