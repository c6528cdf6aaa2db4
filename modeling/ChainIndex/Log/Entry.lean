import ChainIndex.Json.Parser
import ChainIndex.Json.Shape
import ChainIndex.Log.Attributes
import ChainIndex.Text.Blank

/-!
# Execution logs

A node reports the execution of a transaction as a JSON list with one entry per message: its number,
whether it succeeded, the events it caused, and a text, which on failure is JSON itself.

* `Log.parse?`: the entries of a log; a blank log has none.
* `Log.find`: the entry of a message, or the empty entry.
-/

namespace ChainIndex

/-- The error that a failed message reports. -/
structure LogError where
  codespace : String := ""
  code : UInt32 := 0
  message : String := ""
deriving DecidableEq, Repr, Inhabited

structure LogEvent where
  kind : String := ""
  attributes : Attributes := {}
deriving DecidableEq, Repr, Inhabited

/-- How one message was executed. -/
structure LogEntry where
  index : UInt64 := 0
  success : Bool := false
  error : LogError := {}
  events : List LogEvent := []
deriving DecidableEq, Repr, Inhabited

namespace LogError

open Json (Field Shape)

def isEmpty (e : LogError) : Bool :=
  e.message.isEmpty && e.code == 0

def shape : Shape LogError where
  empty := {}
  fields := [
    .defaulted "codespace" .text codespace fun e v => { e with codespace := v },
    .defaulted "code" .word32 code fun e v => { e with code := v },
    .defaulted "message" .text message fun e v => { e with message := v }]

/-- The error that the text of an entry reports; a text that is not JSON is the message itself. -/
def ofText (text : String) : LogError :=
  if text.isEmpty then {}
  else ((Json.parse? text).bind shape.read).getD { message := text }

/-- The text of an entry may be null. -/
def read : Json → Option LogError
  | .null => some {}
  | .text s => some (ofText s)
  | _ => none

end LogError

namespace LogEvent

open Json (Field Shape)

def shape : Shape LogEvent where
  empty := {}
  fields := [
    .incoming "type" .defaulted Json.Codec.text.read fun e v => { e with kind := v },
    .incoming "attributes" .defaulted (fun j => j.canonical?.bind Attributes.ofJson?)
      fun e v => { e with attributes := v }]

end LogEvent

namespace LogEntry

open Json (Field Shape)

/-- The number of a message: an integer, a double that equals one, the digits of one, or null for
zero. -/
def readIndex : Json → Option UInt64
  | .null => some 0
  | .integer n => if 0 ≤ n then some (UInt64.ofNat n.toNat) else none
  | .float bits => (Json.wholeOf? bits).map fun n => UInt64.ofNat (min n (UInt64.size - 1))
  | .text s => Text.word64? s
  | _ => none

def shape : Shape LogEntry where
  empty := {}
  fields := [
    .incoming "msg_index" .defaulted (fun j => j.canonical?.bind readIndex)
      fun e v => { e with index := v },
    .incoming "success" .defaulted Json.Codec.bool.read fun e v => { e with success := v },
    .incoming "log" .defaulted LogError.read fun e v => { e with error := v },
    .incoming "events" .defaulted
      (fun | .array items => items.mapM LogEvent.shape.read | _ => none)
      fun e v => { e with events := v }]

/-- The events of one type, in the order of the log. -/
def eventsOf (e : LogEntry) (kind : String) : List LogEvent :=
  e.events.filter (·.kind == kind)

end LogEntry

namespace Log

/-- The entries of a log. -/
def parse? (raw : String) : Option (List LogEntry) :=
  if Text.allBlank raw then some []
  else
    match Json.parse? raw with
    | some (.array items) => items.mapM LogEntry.shape.read
    | _ => none

/-- The entry of the message with this number: the one at its place if the number is right,
otherwise the first with that number. A message past the end of the log has the empty entry. -/
def find (log : List LogEntry) (index : Nat) : LogEntry :=
  match log[index]? with
  | none => {}
  | some e =>
    if e.index.toNat = index then e
    else (log.find? fun e => e.index.toNat = index).getD {}

end Log

end ChainIndex
