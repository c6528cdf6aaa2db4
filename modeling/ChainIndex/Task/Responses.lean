import ChainIndex.Metric
import ChainIndex.Task.Error
import ChainIndex.Task.Response

/-!
# Sending the responses of a task

Payloads are numbered from zero in the order in which the sink takes them. The end of a task is one
final response: a payload, the end mark or an error.

* `Sending.send`: one payload of many.
* `Sending.sendFinal`, `Sending.finish`, `Sending.fail`: the three ways to end.
-/

namespace ChainIndex

/-- Where responses go; a sink may refuse any of them. -/
structure Sink (ρ : Type) where
  accept : TaskResponse → ρ → Except SinkError Unit × ρ

/-- How far the sending of a task's responses has come. -/
structure Sending (ρ : Type) where
  id : TaskId
  /-- The number of payloads sent so far. -/
  sent : UInt64 := 0
  sink : ρ
  /-- What was recorded, the newest first. -/
  journal : List Metric := []

namespace Sending

variable {ρ : Type} (k : Sink ρ)

/-- The type of the response that ends a successful task. -/
def endMark : String := "END"

/-- Offers a response to the sink, and records it under a name if it is taken. -/
def offer (s : Sending ρ) (r : TaskResponse) (name : String) : Except SinkError Unit × Sending ρ :=
  match k.accept r s.sink with
  | (.ok (), sink) => (.ok (), { s with sink, journal := .responseSent name r.final :: s.journal })
  | (.error e, sink) => (.error e, { s with sink })

/-- Sends one payload. -/
def send (s : Sending ρ) (p : Payload) : Except SinkError Unit × Sending ρ :=
  let r : TaskResponse :=
    { id := s.id, type := p.typeName, order := s.sent, payload := p.json }
  match s.offer k r p.typeName with
  | (.ok (), s) => (.ok (), { s with sent := s.sent + 1 })
  | (.error e, s) => (.error e, s)

/-- Ends with a payload. -/
def sendFinal (s : Sending ρ) (p : Payload) : Except SinkError Unit × Sending ρ :=
  s.offer k { id := s.id, type := p.typeName, order := s.sent, final := true, payload := p.json }
    p.typeName

/-- Ends with the end mark. -/
def finish (s : Sending ρ) : Except SinkError Unit × Sending ρ :=
  s.offer k { id := s.id, type := endMark, order := s.sent, final := true } endMark

/-- Ends with an error. -/
def fail (s : Sending ρ) (message : String) : Except SinkError Unit × Sending ρ :=
  s.offer k { id := s.id, order := s.sent, final := true, error := some message } "error"

/-- Sends payloads until one is refused; the others are dropped. -/
def sendAll (s : Sending ρ) : List Payload → Except SinkError Unit × Sending ρ
  | [] => (.ok (), s)
  | p :: rest =>
    match s.send k p with
    | (.ok (), s) => sendAll s rest
    | (.error e, s) => (.error e, s)

end Sending

end ChainIndex
