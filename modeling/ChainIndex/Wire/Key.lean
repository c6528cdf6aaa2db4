import ChainIndex.Wire.Error
import ChainIndex.Wire.Varint

/-!
# Keys of fields

A field starts with a key: its tag and the wire type of its value. A field that a message does not
know is passed over by its wire type alone.

* `Key.read`: the key at the start of the bytes.
* `skip`: the bytes after the value of an unknown field.
-/

namespace ChainIndex.Wire

/-- The most messages and groups that may be nested in one another. -/
def nestingLimit : Nat := 100

def Varint.read (bytes : Bytes) : Except Fault (Nat × Bytes) :=
  match Varint.read? bytes with
  | some r => .ok r
  | none => .error .varint

structure Key where
  tag : Nat
  wireType : WireType
deriving DecidableEq, Repr

namespace Key

def write (k : Key) : Bytes :=
  Varint.write (8 * k.tag + k.wireType.code)

def read (bytes : Bytes) : Except Fault (Key × Bytes) := do
  let (n, rest) ← Varint.read bytes
  if UInt32.size ≤ n then throw (.key n)
  let some wireType := WireType.ofCode? (n % 8) | throw (.wireCode (n % 8))
  if n / 8 = 0 then throw .tagZero
  return ({ tag := n / 8, wireType }, rest)

end Key

/-- The bytes after the first `n`. -/
def skipBytes (n : Nat) (bytes : Bytes) : Except Fault Bytes :=
  if bytes.length < n then .error .underflow else .ok (bytes.drop n)

/-- The bytes after a value that is not a group. -/
def skipValue (w : WireType) (bytes : Bytes) : Except Fault Bytes :=
  match w with
  | .varint => do return (← Varint.read bytes).2
  | .sixtyFourBit => skipBytes 8 bytes
  | .thirtyTwoBit => skipBytes 4 bytes
  | .lengthDelimited => do
    let (n, rest) ← Varint.read bytes
    skipBytes n rest
  | .startGroup => .ok bytes
  | .endGroup => .error .groupEnd

/-- The bytes after the ends of all open groups, which are given by their tags, the innermost first.
Every step takes a byte, so the number of bytes bounds the steps. -/
def skipGroups (room : Nat) : Nat → List Nat → Bytes → Except Fault Bytes
  | _, [], bytes => .ok bytes
  | 0, _ :: _, _ => .error .varint
  | steps + 1, tag :: outer, bytes => do
    let (k, rest) ← Key.read bytes
    if k.wireType = .endGroup then
      if k.tag = tag then skipGroups room steps outer rest else throw .groupEnd
    else if room ≤ outer.length + 1 then throw .tooDeep
    else
      let rest ← skipValue k.wireType rest
      if k.wireType = .startGroup then skipGroups room steps (k.tag :: tag :: outer) rest
      else skipGroups room steps (tag :: outer) rest

/-- The bytes after the value of an unknown field, with room for this many nested groups. -/
def skip (room : Nat) (k : Key) (bytes : Bytes) : Except Fault Bytes := do
  if room = 0 then throw .tooDeep
  let rest ← skipValue k.wireType bytes
  if k.wireType = .startGroup then skipGroups room (rest.length + 1) [k.tag] rest else return rest

end ChainIndex.Wire
