import ChainIndex.Clock
import ChainIndex.Node.Error

/-!
# Requests and replies

A request asks for a path with parameters, relative to the address of a node.
-/

namespace ChainIndex

structure Request where
  path : String
  /-- Parameters in order; a name may stand more than once. -/
  query : List (String × String) := []
  timeout : Span := 0
deriving DecidableEq, Repr

namespace Request

def withQuery (r : Request) (key value : String) : Request :=
  { r with query := r.query ++ [(key, value)] }

/-- The first value of a parameter. -/
def value? (r : Request) (key : String) : Option String :=
  r.query.lookup key

end Request

/-- An answer as it arrived, whatever its status. -/
structure Reply where
  status : Nat := 200
  body : String := ""
deriving DecidableEq, Repr

namespace Reply

def isSuccess (r : Reply) : Bool :=
  200 ≤ r.status && r.status < 300

end Reply

/-- The address of a node without slashes at its end. -/
def baseUrl (url : String) : String :=
  String.ofList (url.toList.reverse.dropWhile (· == '/')).reverse

end ChainIndex
