import ChainIndex.Json.Printer
import ChainIndex.Keyed

/-!
# Attributes of log events

An attribute list repeats its keys: a transfer lists recipient, sender and amount once per movement.
So most keys keep every value in order; three keep the last one.

* `Attributes.ofJson?`: attributes from a list of keys and values or from a plain object.
-/

namespace ChainIndex

structure Attributes where
  module : String := ""
  action : String := ""
  completionTime : String := ""
  sender : List String := []
  recipient : List String := []
  feeder : List String := []
  voter : List String := []
  amount : List String := []
  /-- The values of the three keys that name validators. -/
  validator : Keyed (List String) := []
  others : Keyed (List String) := []
deriving DecidableEq, Repr, Inhabited

namespace Attributes

def isEmpty (a : Attributes) : Bool :=
  a == {}

/-- Takes one attribute. -/
def push (a : Attributes) (key value : String) : Attributes :=
  match key with
  | "module" => { a with module := value }
  | "action" => { a with action := value }
  | "completion_time" => { a with completionTime := value }
  | "sender" => { a with sender := a.sender ++ [value] }
  | "recipient" => { a with recipient := a.recipient ++ [value] }
  | "feeder" => { a with feeder := a.feeder ++ [value] }
  | "voter" => { a with voter := a.voter ++ [value] }
  | "amount" => { a with amount := a.amount ++ [value] }
  | "validator" | "source_validator" | "destination_validator" =>
    { a with validator := Keyed.push a.validator key value }
  | _ => { a with others := Keyed.push a.others key value }

/-- The attributes of a list of keys and values. -/
def ofPairs (pairs : List (String × String)) : Attributes :=
  pairs.foldl (fun a p => a.push p.1 p.2) {}

/-- A value as text: a text is itself, nothing and null are empty, anything else is its JSON. -/
def valueText : Option Json → String
  | none | some .null => ""
  | some (.text s) => s
  | some j => j.print

/-- The key and value of a list item. -/
def pair? (item : Json) : Option (String × String) :=
  match item.member? "key" with
  | some (.text key) => some (key, valueText (item.member? "value"))
  | _ => none

/-- The attributes that a canonical value lists. -/
def ofJson? : Json → Option Attributes
  | .null => some {}
  | .array items => (items.mapM pair?).map ofPairs
  | .object members => some (ofPairs (members.map fun m => (m.1, valueText (some m.2))))
  | _ => none

end Attributes

end ChainIndex
