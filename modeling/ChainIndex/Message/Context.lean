import ChainIndex.Address
import ChainIndex.Envelope.Decode
import ChainIndex.Event.Transfers
import ChainIndex.Message.Kind

/-!
# Reading the fields of messages

What the mapping of a message may consult, what can go wrong in it, and the readers that all kinds
share.
-/

namespace ChainIndex

open Wire (Bytes Layout)

/-- How many messages that wrap others may be nested in one another. -/
def wrapperLimit : Nat := 4

/-- Why a message has no event. -/
inductive MapError where
  /-- No mapping exists for its type. -/
  | unknown (typeTag : String)
  | malformed (message : String) (source : Wire.ReadError)
  | missing (field : String)
  | address (field : String) (source : Address.Error)
  | amount (field : String) (source : Amount.Error)
  /-- A wrapped value has no readable type. -/
  | wrapped (source : Envelope.Error)
  | nestedTooDeep
  /-- A wrapped message has no event. -/
  | inner (index : Nat) (source : MapError)
deriving DecidableEq, Repr

namespace MapError

def message : MapError → String
  | .unknown typeTag => s!"no mapper for message type '{typeTag}'"
  | .malformed name source => s!"malformed {name} payload: {source.message}"
  | .missing field => s!"field '{field}' is missing"
  | .address field source => s!"address field '{field}': {source.message}"
  | .amount field source => s!"amount field '{field}': {source.message}"
  | .wrapped source => s!"inner message decode failed: {source.message}"
  | .nestedTooDeep => s!"wrapper messages nested deeper than {wrapperLimit} levels"
  | .inner index source => s!"inner message {index}: " ++ source.message

/-- The message itself, and not one inside it, has no mapping. -/
def isUnknown : MapError → Bool
  | .unknown _ => true
  | _ => false

end MapError

/-- What the mapping of a message may consult besides its bytes. -/
structure Context where
  encoding : Encoding
  /-- How the message was executed. -/
  log : LogEntry := {}

abbrev Mapped := Except MapError

namespace Context

/-- An address field as text. -/
def address (c : Context) (role : Role) (field : String) (raw : Bytes) : Mapped String :=
  (Address.normalize raw role c.encoding).mapError (.address field)

def account (c : Context) (field : String) (raw : Bytes) : Mapped Account := do
  return { id := ← c.address .account field raw }

def validator (c : Context) (field : String) (raw : Bytes) : Mapped Account := do
  return { id := ← c.address .validatorOperator field raw }

/-- A digest: raw bytes in one encoding, hexadecimal text in the other. -/
def hexText (c : Context) (raw : Bytes) : String :=
  match c.encoding with
  | .amino => Text.Hex.encode raw
  | .proto => Text.Utf8.lossy raw

/-- Adds the transfers that the log reports. -/
def addTransfers (c : Context) (kind skipped : String) (e : Event) : Mapped Event :=
  (e.withTransfers kind skipped c.log).mapError (.amount "transfer")

/-- The type and bytes of a wrapped value. -/
def unpack (c : Context) (raw : Bytes) : Mapped RawMessage :=
  (Envelope.unpack raw c.encoding).mapError .wrapped

end Context

namespace Message

variable {α : Type}

/-- The fields of a message, called `name` where it is malformed. -/
def readAs (l : Layout α) (name : String) (payload : Bytes) : Mapped α :=
  (l.read payload).mapError (.malformed name)

def coin (field : String) (c : Coin) : Mapped Amount :=
  (Amount.parse c.amount c.denom).mapError (.amount field)

def coins (field : String) (cs : List Coin) : Mapped (List Amount) :=
  cs.mapM (coin field)

/-- A coin that may not be absent. -/
def requiredCoin (field : String) (c : Option Coin) : Mapped Amount :=
  match c with
  | some c => coin field c
  | none => .error (.missing field)

/-- A plain number without denomination. -/
def plainAmount (field text : String) : Mapped Amount :=
  (Amount.parse text "").mapError (.amount field)

/-- A number that is sent as an integer, `10 ^ 18` times its value. -/
def fixedPoint (field currency text : String) : Mapped Amount :=
  (Amount.ofScaled text (Int32.ofNat Amount.fixedPrecision) currency).mapError (.amount field)

/-- An event of a kind. -/
def eventOf (kind : MessageKind) : Event :=
  Event.ofKind kind.type kind.route

/-- A denomination without an amount. -/
def denomOnly (denom : String) : Amount :=
  { currency := denom }

/-- Adds amounts under `name`, `name_1`, `name_2` and so on. -/
def withNumbered (name : String) (amounts : List Amount) (e : Event) : Event :=
  amounts.zipIdx.foldl (fun e (a, i) =>
    e.withAmount (if i = 0 then name else s!"{name}_{i}") a) e

end Message

end ChainIndex
