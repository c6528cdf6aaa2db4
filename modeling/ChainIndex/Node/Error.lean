/-!
# Failures of requests

Why a node did not answer, or not usefully, and which failures may pass if the request is repeated.
-/

namespace ChainIndex

inductive NodeError where
  /-- The connection failed. -/
  | network (text : String)
  /-- No answer within so many milliseconds. -/
  | timeout (millis : Nat)
  /-- A status that means failure, with the node's own words. -/
  | status (code : Nat) (text : String)
  /-- An error inside an answer that otherwise arrived well. -/
  | refused (code : Int) (text : String)
  /-- The caller's deadline came first. -/
  | cancelled
  /-- The answer has the wrong form, with the words of its reader. -/
  | unreadable (reason : String)
  /-- The answer has the right form but says something unusable. -/
  | unusable (text : String)
deriving DecidableEq, Repr

namespace NodeError

def message : NodeError → String
  | network text => s!"HTTP error: {text}"
  | timeout millis => s!"Request timed out after {millis}ms"
  | status code text => s!"Bad Response {code} ({text})"
  | refused code text => s!"RPC error {code}: {text}"
  | cancelled => "request cancelled: deadline exceeded"
  | unreadable reason => s!"Deserialization error: {reason}"
  | unusable text => s!"invalid response: {text}"

/-- The same request may succeed later. -/
def isTransient : NodeError → Bool
  | network _ | timeout _ => true
  | status code _ => 500 ≤ code
  | _ => false

/-- The node itself said that the request is wrong. -/
def isRefusal : NodeError → Bool
  | refused _ _ => true
  | status code _ => 400 ≤ code && code < 500
  | _ => false

/-- The status to record for the failure; zero where there was no answer. -/
def statusCode : NodeError → Nat
  | status code _ => code
  | _ => 0

end NodeError

end ChainIndex
