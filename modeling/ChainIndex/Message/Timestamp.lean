import ChainIndex.Envelope.Basic
import ChainIndex.Time.Rfc3339

/-!
# Timestamps inside messages
-/

namespace ChainIndex.Message

open Wire (Field Layout)

structure Timestamp where
  seconds : Int64 := 0
  nanos : Int32 := 0
deriving DecidableEq, Repr, Inhabited

namespace Timestamp

def layout : Layout Timestamp where
  name := "Timestamp"
  empty := {}
  fields := [
    .single .int64 1 "seconds" seconds fun t v => { t with seconds := v },
    .single .int32 2 "nanos" nanos fun t v => { t with nanos := v }]

/-- The time as text, unless the numbers describe none. -/
def text? (t : Timestamp) : Option String :=
  if t.nanos < 0 then none
  else (Time.ofParts? t.seconds.toInt t.nanos.toInt.toNat).map Time.text

end Timestamp

end ChainIndex.Message
