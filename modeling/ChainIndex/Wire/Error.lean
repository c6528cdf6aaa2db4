/-!
# Faults of binary messages

What can be wrong with the bytes of a message, and where. The place is the path of the fields around
the fault, the innermost first.
-/

namespace ChainIndex

/-- What goes well has gone well at its first step. -/
theorem of_bind_ok {ε α β : Type} {x : Except ε α} {f : α → Except ε β} {b : β}
    (h : x >>= f = .ok b) : ∃ a, x = .ok a ∧ f a = .ok b := by
  cases x with
  | error e => cases h
  | ok a => exact ⟨a, rfl, h⟩

/-- Two steps go well exactly if each of them does. -/
theorem bind_eq_ok {ε α β : Type} {x : Except ε α} {f : α → Except ε β} {b : β} :
    x >>= f = .ok b ↔ ∃ a, x = .ok a ∧ f a = .ok b :=
  ⟨of_bind_ok, fun ⟨_, hx, hf⟩ => hx ▸ hf⟩

/-- It goes just as well if a failure is told in other words. -/
theorem of_mapError_ok {ε ε' α : Type} {x : Except ε α} {f : ε → ε'} {a : α}
    (h : x.mapError f = .ok a) : x = .ok a := by
  cases x with
  | error e => cases h
  | ok a' => exact congrArg Except.ok (Except.ok.inj h)

namespace Wire

/-- How the bytes after a key are delimited. -/
inductive WireType where
  | varint
  | sixtyFourBit
  | lengthDelimited
  | startGroup
  | endGroup
  | thirtyTwoBit
deriving DecidableEq, Repr

namespace WireType

def code : WireType → Nat
  | .varint => 0
  | .sixtyFourBit => 1
  | .lengthDelimited => 2
  | .startGroup => 3
  | .endGroup => 4
  | .thirtyTwoBit => 5

def ofCode? : Nat → Option WireType
  | 0 => some .varint
  | 1 => some .sixtyFourBit
  | 2 => some .lengthDelimited
  | 3 => some .startGroup
  | 4 => some .endGroup
  | 5 => some .thirtyTwoBit
  | _ => none

theorem ofCode?_code (w : WireType) : ofCode? w.code = some w := by
  cases w <;> rfl

def label : WireType → String
  | .varint => "Varint"
  | .sixtyFourBit => "SixtyFourBit"
  | .lengthDelimited => "LengthDelimited"
  | .startGroup => "StartGroup"
  | .endGroup => "EndGroup"
  | .thirtyTwoBit => "ThirtyTwoBit"

end WireType

inductive Fault where
  /-- A number that is cut off or has more than 64 bits. -/
  | varint
  /-- A length beyond the end of the bytes. -/
  | underflow
  /-- A field that runs past the end of its message. -/
  | overrun
  | wireType (found expected : WireType)
  | wireCode (code : Nat)
  /-- A key of more than 32 bits. -/
  | key (n : Nat)
  | tagZero
  /-- The end of a group that is not the one that was opened last. -/
  | groupEnd
  | tooDeep
  | notText
deriving DecidableEq, Repr

def Fault.message : Fault → String
  | .varint => "invalid varint"
  | .underflow => "buffer underflow"
  | .overrun => "delimited length exceeded"
  | .wireType found expected =>
    s!"invalid wire type: {found.label} (expected {expected.label})"
  | .wireCode code => s!"invalid wire type value: {code}"
  | .key n => s!"invalid key value: {n}"
  | .tagZero => "invalid tag value: 0"
  | .groupEnd => "unexpected end group tag"
  | .tooDeep => "recursion limit reached"
  | .notText => "invalid string value: data is not UTF-8 encoded"

/-- A fault and the fields around it, each with the name of its message, the innermost first. -/
structure ReadError where
  path : List (String × String) := []
  fault : Fault
deriving DecidableEq, Repr

namespace ReadError

/-- The same fault, seen from the message around it. -/
def within (message field : String) (e : ReadError) : ReadError :=
  { e with path := e.path ++ [(message, field)] }

def message (e : ReadError) : String :=
  "failed to decode Protobuf message: " ++
    String.join (e.path.map fun (m, f) => s!"{m}.{f}: ") ++ e.fault.message

end ReadError

end Wire

end ChainIndex
