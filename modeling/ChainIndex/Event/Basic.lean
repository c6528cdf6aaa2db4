import ChainIndex.Amount.Basic
import ChainIndex.Keyed

/-!
# Events

The canonical form of what one instruction of a transaction did: who took part in which role, what
moved, and further facts as named texts.

* `Event.primary`: the event's own type, the first of its tags.
-/

namespace ChainIndex

/-- A validator's public description. -/
structure Description where
  moniker : String := ""
  identity : String := ""
  website : String := ""
  securityContact : String := ""
  details : String := ""
deriving DecidableEq, Repr, Inhabited

structure Account where
  id : String := ""
  /-- Present only where a validator is created or edited. -/
  details : Option Description := none
deriving DecidableEq, Repr, Inhabited

/-- One side of a movement of value. -/
structure Movement where
  account : Account := {}
  amounts : List Amount := []
deriving DecidableEq, Repr, Inhabited

structure Event where
  /-- Tags; the first one is the event's own type. -/
  types : List String := []
  module : String := ""
  /-- Accounts by role. -/
  nodes : Keyed (List Account) := []
  senders : List Movement := []
  recipients : List Movement := []
  amounts : Keyed Amount := []
  additional : Keyed (List String) := []
  /-- Movements that the execution log reports, by their purpose. -/
  transfers : Keyed (List Movement) := []
  /-- The events of wrapped instructions. -/
  sub : List Event := []
  /-- The message of a failure. -/
  error : Option String := none
deriving Repr, Inhabited

namespace Event

/-- An event of one type. -/
def ofKind (kind module : String) : Event :=
  { types := [kind], module }

def primary (e : Event) : String :=
  e.types.headD ""

/-- Adds an account under a role. -/
def withNode (e : Event) (role : String) (account : Account) : Event :=
  { e with nodes := e.nodes.push role account }

def withAmount (e : Event) (name : String) (amount : Amount) : Event :=
  { e with amounts := e.amounts.insert name amount }

def withAdditional (e : Event) (key : String) (values : List String) : Event :=
  { e with additional := e.additional.insert key values }

/-- Adds a fact with one value. -/
def withText (e : Event) (key value : String) : Event :=
  e.withAdditional key [value]

def withSender (e : Event) (m : Movement) : Event :=
  { e with senders := e.senders ++ [m] }

def withRecipient (e : Event) (m : Movement) : Event :=
  { e with recipients := e.recipients ++ [m] }

mutual

/-- How deep wrapped events are nested. -/
def depth : Event → Nat
  | ⟨_, _, _, _, _, _, _, _, sub, _⟩ => depthList sub + 1

def depthList : List Event → Nat
  | [] => 0
  | e :: es => max (depth e) (depthList es)

end

theorem depth_eq (e : Event) : e.depth = depthList e.sub + 1 := by
  cases e
  rw [depth]

theorem depthList_le {es : List Event} {n : Nat} : depthList es ≤ n ↔ ∀ e ∈ es, e.depth ≤ n := by
  induction es with
  | nil => simp [depthList]
  | cons e es ih => rw [depthList, Nat.max_le, ih, List.forall_mem_cons]

theorem depth_le_depthList {e : Event} {es : List Event} (h : e ∈ es) : e.depth ≤ depthList es :=
  depthList_le.1 (Nat.le_refl _) e h

end Event

/-- What one message of a transaction did, or a stand-in for it made from the log or an error. -/
structure TransactionEvent where
  /-- The number of the message; empty where there is none. -/
  id : String := ""
  kind : String := ""
  sub : List Event := []
deriving Repr, Inhabited

end ChainIndex
