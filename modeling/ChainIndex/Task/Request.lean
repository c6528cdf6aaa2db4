import ChainIndex.Chain.Range
import ChainIndex.Json.Shape
import ChainIndex.Query
import ChainIndex.Task.Error
import ChainIndex.Task.Id

/-!
# Task requests

What a manager asks for: a type of task and a payload whose form depends on it.

* `TaskRequest.range`, `TaskRequest.latest`, `TaskRequest.account`: the payload as the task needs
  it.
-/

namespace ChainIndex

structure TaskRequest where
  id : TaskId := default
  type : String := ""
  payload : Json := .null
deriving Repr, Inhabited

namespace TaskRequest

open Json (Codec Field Shape)

def shape : Shape TaskRequest where
  empty := {}
  fields := [
    .required "id" TaskId.codec id fun r v => { r with id := v },
    .required "type" .text type fun r v => { r with type := v },
    .defaulted "payload" .free payload fun r v => { r with payload := v }]

def codec : Codec TaskRequest := shape.codec

/-- The payload in the form that a codec reads; the reason is told if it has another one. -/
def payloadAs {α : Type} (r : TaskRequest) (c : Codec α) (reason : String) :
    Except RequestError α :=
  match c.read r.payload with
  | some a => .ok a
  | none => .error (.malformedPayload reason)

/-- A range has to end somewhere, and not before it starts. -/
def checkRange (range : HeightRange) : Except RequestError Unit :=
  if range.last = 0 then .error .endIsZero
  else if range.last < range.first then .error (.inverted range.first range.last)
  else .ok ()

/-- An account has to be named. -/
def checkAccount (q : AccountQuery) : Except RequestError Unit :=
  if Text.allBlank q.account then .error .emptyAccount else .ok ()

def range (r : TaskRequest) (reason : String := "") : Except RequestError HeightRange := do
  let range ← r.payloadAs HeightRange.codec reason
  checkRange range
  return range

def latest (r : TaskRequest) (reason : String := "") : Except RequestError LatestQuery :=
  r.payloadAs LatestQuery.codec reason

def account (r : TaskRequest) (reason : String := "") : Except RequestError AccountQuery := do
  let q ← r.payloadAs AccountQuery.codec reason
  checkAccount q
  return q

end TaskRequest

end ChainIndex
