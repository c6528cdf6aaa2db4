import ChainIndex.Chain.Version

/-!
# Account addresses

The legacy encoding carries addresses as raw bytes, the later one as bech32 text. The event model
holds text only, with the prefix of the address's role.

* `Bech32.encode`: a prefix, the separator `1`, the bytes in groups of five bits, six check
  characters.
* `Address.normalize`: an address field of either encoding as text.
-/

namespace ChainIndex

namespace Bech32

/-- The 32 characters that stand for the five-bit groups. -/
def alphabet : List Char :=
  "qpzry9x8gf2tvdw0s3jn54khce6mua7l".toList

/-- The character of a five-bit group. -/
def symbol (group : Nat) : Char :=
  alphabet.getD group 'q'

/-- The lowest `width` bits of `n`, highest first. -/
def bits : Nat → Nat → List Bool
  | 0, _ => []
  | width + 1, n => n.testBit width :: bits width n

/-- The number whose bits these are, highest first. -/
def ofBits (bs : List Bool) : Nat :=
  bs.foldl (fun acc b => 2 * acc + b.toNat) 0

/-- Five-bit groups of a bit sequence; the last one is filled up with zeros. -/
def groups : List Bool → List Nat
  | [] => []
  | a :: b :: c :: d :: e :: rest => ofBits [a, b, c, d, e] :: groups rest
  | short => [ofBits (short ++ List.replicate (5 - short.length) false)]

/-- Bytes regrouped into five-bit groups. -/
def regroup (bytes : List UInt8) : List Nat :=
  groups (bytes.flatMap fun b => bits 8 b.toNat)

/-- The five generators of the checksum, one per carried bit. -/
def generators : List Nat :=
  [0x3b6a57b2, 0x26508e6d, 0x1ea119fa, 0x3d4233dd, 0x2a1462b3]

/-- One step of the checksum: shift by a group and reduce. -/
def polymodStep (chk v : Nat) : Nat :=
  let top := chk >>> 25
  (generators.zipIdx).foldl (fun acc (g, i) => if top.testBit i then acc ^^^ g else acc)
    (((chk &&& 0x1ffffff) <<< 5) ^^^ v)

/-- The checksum of a sequence of groups. -/
def polymod (values : List Nat) : Nat :=
  values.foldl polymodStep 1

/-- The prefix as the checksum sees it: the high bits, a zero, the low bits. -/
def expand (hrp : List Char) : List Nat :=
  hrp.map (fun c => c.toNat >>> 5) ++ 0 :: hrp.map (fun c => c.toNat &&& 31)

/-- The six check groups of a prefix and its data. -/
def checksum (hrp : List Char) (data : List Nat) : List Nat :=
  let m := polymod (expand hrp ++ data ++ List.replicate 6 0) ^^^ 1
  (List.range 6).map fun i => (m >>> (5 * (5 - i))) &&& 31

/-- The text of `bytes` under the prefix `hrp`. There is no limit on its length. -/
def encode (hrp : String) (bytes : List UInt8) : String :=
  let data := regroup bytes
  String.ofList (hrp.toList ++ '1' :: (data ++ checksum hrp.toList data).map symbol)

end Bech32

/-- Which kind of entity an address names. -/
inductive Role where
  | account
  | validatorOperator
  | validatorConsensus
deriving DecidableEq, Repr

/-- The readable prefix of a role's addresses. -/
def Role.label : Role → String
  | .account => "terra"
  | .validatorOperator => "terravaloper"
  | .validatorConsensus => "terravalcons"

namespace Address

/-- Why an address field has no text. -/
inductive Error where
  | notText
deriving DecidableEq, Repr

def Error.message : Error → String
  | .notText => "address bytes are not valid UTF-8 text"

/-- The text of raw address bytes; no bytes have the empty text. -/
def encode (bytes : List UInt8) (role : Role) : String :=
  if bytes.isEmpty then "" else Bech32.encode role.label bytes

/-- An address field as it stands in a message, as text. -/
def normalize (raw : List UInt8) (role : Role) : Encoding → Except Error String
  | .amino => .ok (encode raw role)
  | .proto =>
    match String.fromUTF8? ⟨raw.toArray⟩ with
    | some text => .ok text
    | none => .error .notText

end Address

end ChainIndex
