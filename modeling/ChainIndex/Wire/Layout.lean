import ChainIndex.Text.Utf8
import ChainIndex.Wire.Key

/-!
# Layouts of messages

A message is a sequence of fields in any order. Its layout lists what each tag means: of a single
value the last occurrence counts, a repeated one gathers its occurrences, and the occurrences of an
embedded message are merged. Values that are zero or empty are not written.

An embedded message is read from all the bytes that are left, and only then is it checked that its
last field ended where the message does.

* `Layout.write`, `Layout.read`: a message as bytes, and back.
-/

namespace ChainIndex.Wire

/-- How a value that is no message stands on the wire. -/
structure Scalar (β : Type) where
  wireType : WireType
  isDefault : β → Bool
  write : β → Bytes
  read : Bytes → Except Fault (β × Bytes)

namespace Scalar

variable {β : Type}

/-- A number of at most 64 bits. -/
def number (isDefault : β → Bool) (toNat : β → Nat) (ofNat : Nat → β) : Scalar β where
  wireType := .varint
  isDefault
  write b := Varint.write (toNat b)
  read bytes := do
    let (n, rest) ← Varint.read bytes
    return (ofNat n, rest)

def word64 : Scalar UInt64 :=
  number (· == 0) UInt64.toNat UInt64.ofNat

def int64 : Scalar Int64 :=
  number (· == 0) (fun n => n.toUInt64.toNat) fun n => (UInt64.ofNat n).toInt64

/-- The low 32 bits count. -/
def int32 : Scalar Int32 :=
  number (· == 0) (fun n => n.toInt64.toUInt64.toNat) fun n => (UInt32.ofNat n).toInt32

def bool : Scalar Bool :=
  number (· == false) Bool.toNat (· != 0)

/-- A length and that many bytes. -/
def blob : Scalar Bytes where
  wireType := .lengthDelimited
  isDefault := List.isEmpty
  write b := Varint.write b.length ++ b
  read bytes := do
    let (n, rest) ← Varint.read bytes
    if rest.length < n then throw .underflow
    return (rest.take n, rest.drop n)

def text : Scalar String where
  wireType := .lengthDelimited
  isDefault := String.isEmpty
  write s := blob.write (Text.Utf8.encode s)
  read bytes := do
    let (b, rest) ← blob.read bytes
    match Text.Utf8.decode? b with
    | some s => return (s, rest)
    | none => throw .notText

end Scalar

/-- One field of a message. -/
structure Field (α : Type) where
  tag : Nat
  name : String
  wireType : WireType
  /-- Writes all occurrences, with their keys. -/
  write : α → Bytes
  /-- Takes one occurrence, without its key, into the message, with room for this many nested
  messages. -/
  merge : Nat → α → Bytes → Except ReadError (α × Bytes)

/-- The fields of a message, and the message without any. -/
structure Layout (α : Type) where
  name : String
  empty : α
  fields : List (Field α)

variable {α β : Type}

/-- A fault at this place. -/
def located (r : Except Fault β) : Except ReadError β :=
  r.mapError fun fault => { fault }

namespace Layout

def write (l : Layout α) (a : α) : Bytes :=
  l.fields.flatMap fun f => f.write a

/-- Takes one field, after its key, into a message. -/
def mergeField (l : Layout α) (room : Nat) (k : Key) (a : α) (bytes : Bytes) :
    Except ReadError (α × Bytes) :=
  match l.fields.find? fun f => f.tag == k.tag with
  | none => do return (a, ← located (skip room k bytes))
  | some f =>
    (if k.wireType = f.wireType then f.merge room a bytes
     else .error { fault := .wireType k.wireType f.wireType }).mapError (·.within l.name f.name)

/-- Takes fields into a message until at most `stop` bytes are left. Every field takes a byte, so
the number of bytes bounds the steps. -/
def mergeFields (l : Layout α) (room stop : Nat) : Nat → α → Bytes → Except ReadError (α × Bytes)
  | 0, a, bytes => .ok (a, bytes)
  | steps + 1, a, bytes =>
    if bytes.length ≤ stop then .ok (a, bytes)
    else do
      let (k, rest) ← located (Key.read bytes)
      let (a, rest) ← l.mergeField room k a rest
      mergeFields l room stop steps a rest

/-- Takes an embedded message, with its length in front, into what is known of it. -/
def mergeEmbedded (l : Layout α) (room : Nat) (a : α) (bytes : Bytes) :
    Except ReadError (α × Bytes) := do
  if room = 0 then throw { fault := .tooDeep }
  let (n, rest) ← located (Varint.read bytes)
  if rest.length < n then throw { fault := .underflow }
  let stop := rest.length - n
  let (a, rest) ← l.mergeFields (room - 1) stop rest.length a rest
  if rest.length = stop then return (a, rest) else throw { fault := .overrun }

/-- The message that the bytes hold. -/
def read (l : Layout α) (bytes : Bytes) : Except ReadError α := do
  let (a, _) ← l.mergeFields nestingLimit 0 bytes.length l.empty bytes
  return a

end Layout

namespace Field

/-- The bytes of one occurrence of a delimited value. -/
def delimited (tag : Nat) (body : Bytes) : Bytes :=
  Key.write ⟨tag, .lengthDelimited⟩ ++ Scalar.blob.write body

/-- A single value. -/
def single (k : Scalar β) (tag : Nat) (name : String) (get : α → β) (set : α → β → α) : Field α where
  tag
  name
  wireType := k.wireType
  write a := if k.isDefault (get a) then [] else Key.write ⟨tag, k.wireType⟩ ++ k.write (get a)
  merge _ a bytes := do
    let (b, rest) ← located (k.read bytes)
    return (set a b, rest)

/-- Any number of values. -/
def repeated (k : Scalar β) (tag : Nat) (name : String) (get : α → List β) (set : α → List β → α) :
    Field α where
  tag
  name
  wireType := k.wireType
  write a := (get a).flatMap fun b => Key.write ⟨tag, k.wireType⟩ ++ k.write b
  merge _ a bytes := do
    let (b, rest) ← located (k.read bytes)
    return (set a (get a ++ [b]), rest)

/-- A message that may be absent. -/
def message (l : Layout β) (tag : Nat) (name : String) (get : α → Option β)
    (set : α → Option β → α) : Field α where
  tag
  name
  wireType := .lengthDelimited
  write a := (get a).elim [] fun b => delimited tag (l.write b)
  merge room a bytes := do
    let (b, rest) ← l.mergeEmbedded room ((get a).getD l.empty) bytes
    return (set a (some b), rest)

/-- Any number of messages. -/
def messages (l : Layout β) (tag : Nat) (name : String) (get : α → List β)
    (set : α → List β → α) : Field α where
  tag
  name
  wireType := .lengthDelimited
  write a := (get a).flatMap fun b => delimited tag (l.write b)
  merge room a bytes := do
    let (b, rest) ← l.mergeEmbedded room l.empty bytes
    return (set a (get a ++ [b]), rest)

end Field

end ChainIndex.Wire
