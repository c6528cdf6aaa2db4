import ChainIndex.Amount.Coin
import ChainIndex.Event.Basic
import ChainIndex.Log.Entry

/-!
# Transfers from the log

The log reports what moved, recipient by recipient. The movements of an event are grouped by
recipient in the order of first appearance.

* `Event.produceTransfers`: adds the movements of a log entry to an event.
* `Event.withTransfers`: an event with the movements of its log entry.
-/

namespace ChainIndex

namespace LogEntry

/-- The recipients and amounts of all transfers; a recipient without an amount is left out. -/
def payments (entry : LogEntry) : List (String × String) :=
  (entry.eventsOf "transfer").flatMap fun e => e.attributes.recipient.zip e.attributes.amount

end LogEntry

namespace Event

/-- What each recipient got. -/
def received (payments : List (String × String)) : Except Amount.Error (Keyed (List Amount)) :=
  payments.foldlM (fun acc (recipient, amount) => do
    let coins ← Amount.parseList amount
    return Keyed.alter acc recipient fun old => old.getD [] ++ coins) []

/-- One movement for each recipient. -/
def movementsOf (got : Keyed (List Amount)) : List Movement :=
  got.map fun g => { account := { id := g.1 }, amounts := g.2 }

/-- The purposes under which transfers are kept. -/
def sendKind : String := "send"

def rewardKind : String := "reward"

/-- Adds the transfers of a log entry under a purpose to the event at hand, except those to `skipped`.
Without any, the event stays as it is. -/
def produceTransfers (kind skipped : String) (entry : LogEntry) :
    ExceptT Amount.Error (StateM Event) Unit := do
  let payments := entry.payments.filter fun p => skipped.isEmpty || p.1 != skipped
  let got ← received payments
  if got.isEmpty then return
  modify fun e => { e with transfers := e.transfers.insert kind (movementsOf got) }

/-- An event with the transfers of its log entry. -/
def withTransfers (e : Event) (kind skipped : String) (entry : LogEntry) :
    Except Amount.Error Event :=
  let (result, after) := (produceTransfers kind skipped entry).run e
  result.map fun _ => after

theorem produceTransfers_run (e : Event) (kind skipped : String) (entry : LogEntry) :
    (produceTransfers kind skipped entry).run e =
      match received (entry.payments.filter fun p => skipped.isEmpty || p.1 != skipped) with
      | .error error => (.error error, e)
      | .ok [] => (.ok (), e)
      | .ok got => (.ok (), { e with transfers := e.transfers.insert kind (movementsOf got) }) := by
  simp only [produceTransfers]
  rcases received (entry.payments.filter fun p => skipped.isEmpty || p.1 != skipped) with _ | _ | _
  · rfl
  · rfl
  · rfl

/-- Nothing but the transfers can change. -/
theorem of_withTransfers_ok {e t : Event} {kind skipped : String} {entry : LogEntry}
    (h : e.withTransfers kind skipped entry = .ok t) :
    ∃ transfers, t = { e with transfers } := by
  unfold withTransfers at h
  rw [produceTransfers_run] at h
  cases hgot : received (entry.payments.filter fun p => skipped.isEmpty || p.1 != skipped) with
  | error error =>
    rw [hgot] at h
    cases h
  | ok got =>
    rw [hgot] at h
    cases got with
    | nil =>
      cases e
      exact ⟨_, (Except.ok.inj h).symm⟩
    | cons g got => exact ⟨_, (Except.ok.inj h).symm⟩

end Event

end ChainIndex
