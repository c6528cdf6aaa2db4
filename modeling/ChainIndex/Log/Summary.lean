import ChainIndex.Event.Basic
import ChainIndex.Log.Entry

/-!
# Events from the log alone

For a message that was not mapped, its log entry still tells who took part and whether it failed.
-/

namespace ChainIndex

/-- An account without any amount. -/
def Movement.ofId (id : String) : Movement :=
  { account := { id } }

/-- An event as the log tells it; the action stands for the type where there is one. -/
def LogEvent.toEvent (e : LogEvent) : Event :=
  let a := e.attributes
  { Event.ofKind (if a.action.isEmpty then e.kind else a.action) a.module with
    senders := a.sender.map .ofId
    recipients := a.recipient.map .ofId }

/-- Notes a failure on the first event, or on one made for it. -/
def Event.markFirst (message : String) : List Event → List Event
  | [] => [{ error := some message }]
  | e :: es => { e with error := some (e.error.getD message) } :: es

/-- The event of a message as its log entry alone tells it. -/
def LogEntry.toEvent (entry : LogEntry) : TransactionEvent :=
  let told := (entry.events.filter fun e => !e.attributes.isEmpty).map LogEvent.toEvent
  let sub := if entry.success then told else Event.markFirst entry.error.message told
  { id := toString entry.index.toNat
    kind := (sub.head?.map Event.primary).getD ""
    sub }

end ChainIndex
