import ChainIndex.Message.Context
import ChainIndex.Message.Timestamp

/-!
# Messages of the evidence module
-/

namespace ChainIndex.Message.Evidence

open Wire (Bytes Field Layout)

structure Submit where
  submitter : Bytes := []
  /-- A wrapped value. -/
  evidence : Bytes := []
deriving DecidableEq, Repr, Inhabited

def Submit.layout : Layout Submit where
  name := "MsgSubmitEvidence"
  empty := {}
  fields := [
    .single .blob 1 "submitter" submitter fun m v => { m with submitter := v },
    .single .blob 2 "evidence" evidence fun m v => { m with evidence := v }]

/-- Evidence that a validator signed two blocks of one height. -/
structure Equivocation where
  height : Int64 := 0
  time : Option Timestamp := none
  power : Int64 := 0
  consensusAddress : Bytes := []
deriving DecidableEq, Repr, Inhabited

def Equivocation.layout : Layout Equivocation where
  name := "Equivocation"
  empty := {}
  fields := [
    .single .int64 1 "height" height fun m v => { m with height := v },
    .message Timestamp.layout 2 "time" time fun m v => { m with time := v },
    .single .int64 3 "power" power fun m v => { m with power := v },
    .single .blob 4 "consensus_address" consensusAddress
      fun m v => { m with consensusAddress := v }]

def equivocationTags : List String :=
  ["cosmos-sdk/Equivocation", "evidence/Equivocation", "/cosmos.evidence.v1beta1.Equivocation"]

/-- The facts of an equivocation. -/
def addEquivocation (c : Context) (payload : Bytes) (e : Event) : Mapped Event := do
  let m ← readAs Equivocation.layout "Equivocation" payload
  let consensus ← c.address .validatorConsensus "consensus_address" m.consensusAddress
  let e := e
    |>.withText "evidence_height" (toString m.height.toInt)
    |>.withText "evidence_validator_power" (toString m.power.toInt)
    |>.withText "evidence_consensus" consensus
  match m.time.bind Timestamp.text? with
  | some time => return e.withText "evidence_time" time
  | none => return e

def submit (c : Context) (payload : Bytes) : Mapped Event := do
  let m ← readAs Submit.layout "MsgSubmitEvidence" payload
  let submitter ← c.account "submitter" m.submitter
  let e := (eventOf .evidenceSubmitEvidence).withNode "submitter" submitter
  if m.evidence.isEmpty then return e
  let evidence ← c.unpack m.evidence
  let e := e.withText "evidence_type" evidence.typeTag
  if equivocationTags.contains evidence.typeTag then addEquivocation c evidence.payload e
  else return e

end ChainIndex.Message.Evidence
