/-!
# JSON values

Values as a reader sees them, with the members of an object in the order of the text. A part that is
well formed but has no value, such as half of a surrogate pair or a number beyond all doubles, is
`unreadable`: it may be skipped but not used.

* `Json.canonical?`: the value with sorted member names, the last of equal names winning.
-/

namespace ChainIndex

inductive Json where
  | null
  | bool (b : Bool)
  | integer (n : Int)
  /-- A finite double, by its bits. -/
  | float (bits : UInt64)
  | text (s : String)
  | array (items : List Json)
  | object (members : List (String × Json))
  | unreadable
deriving Inhabited, Repr

namespace Json

/-- Puts a member in its place among sorted ones, replacing one of the same name. -/
def place (name : String) (value : Json) : List (String × Json) → List (String × Json)
  | [] => [(name, value)]
  | (k, v) :: rest =>
    if name = k then (k, value) :: rest
    else if name < k then (name, value) :: (k, v) :: rest
    else (k, v) :: place name value rest

/-- Members in the order of their names; the last of equal names wins. -/
def sorted (members : List (String × Json)) : List (String × Json) :=
  members.foldl (fun acc (k, v) => place k v acc) []

mutual

/-- The value with sorted members throughout, unless a part of it is unreadable. -/
def canonical? : Json → Option Json
  | .unreadable => none
  | .array items => (canonicalItems? items).map .array
  | .object members => (canonicalMembers? members).map fun ms => .object (sorted ms)
  | j => some j

def canonicalItems? : List Json → Option (List Json)
  | [] => some []
  | j :: rest => do return (← canonical? j) :: (← canonicalItems? rest)

def canonicalMembers? : List (String × Json) → Option (List (String × Json))
  | [] => some []
  | (k, j) :: rest => do return (k, ← canonical? j) :: (← canonicalMembers? rest)

end

mutual

/-- How deep arrays and objects are nested. -/
def depth : Json → Nat
  | .array items => depthItems items + 1
  | .object members => depthMembers members + 1
  | _ => 0

def depthItems : List Json → Nat
  | [] => 0
  | j :: rest => max (depth j) (depthItems rest)

def depthMembers : List (String × Json) → Nat
  | [] => 0
  | (_, j) :: rest => max (depth j) (depthMembers rest)

end

/-- The member of this name in an object. -/
def member? (name : String) : Json → Option Json
  | .object members => members.lookup name
  | _ => none

end Json

end ChainIndex
