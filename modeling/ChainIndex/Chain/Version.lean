import ChainIndex.Json.Codec

/-!
# Chain software generations

Which generation of the chain software produced a transaction decides the codec that is tried first
and the place where a block's metadata reports its number of transactions.
-/

namespace ChainIndex

/-- The binary encodings of transactions. -/
inductive Encoding where
  /-- Length-prefixed, with four-byte type prefixes. -/
  | amino
  /-- Self-describing, with type URLs. -/
  | proto
deriving DecidableEq, Repr, Inhabited

namespace Encoding

def label : Encoding → String
  | .amino => "amino"
  | .proto => "proto"

def other : Encoding → Encoding
  | .amino => .proto
  | .proto => .amino

def codec : Json.Codec Encoding :=
  .named label [.amino, .proto]

theorem other_other (e : Encoding) : e.other.other = e := by
  cases e <;> rfl

end Encoding

/-- The supported generations. -/
inductive ChainVersion where
  | columbus3
  | columbus4
  | columbus5
deriving DecidableEq, Repr

instance : Inhabited ChainVersion := ⟨.columbus4⟩

namespace ChainVersion

def label : ChainVersion → String
  | .columbus3 => "columbus-3"
  | .columbus4 => "columbus-4"
  | .columbus5 => "columbus-5"

def codec : Json.Codec ChainVersion :=
  .named label [.columbus3, .columbus4, .columbus5]

/-- The generation of a chain id. A test network maps to the generation that it tracks. -/
def ofChainId? (id : String) : Option ChainVersion :=
  match id with
  | "columbus-3" => some .columbus3
  | "columbus-4" => some .columbus4
  | "columbus-5" => some .columbus5
  | _ =>
    if "tequila-".toList.isPrefixOf id.toList then some .columbus4
    else if "bombay-".toList.isPrefixOf id.toList then some .columbus5
    else none

/-- The generation of exactly this name. -/
def ofLabel? (name : String) : Option ChainVersion :=
  match name with
  | "columbus-3" => some .columbus3
  | "columbus-4" => some .columbus4
  | "columbus-5" => some .columbus5
  | _ => none

theorem ofLabel?_label (v : ChainVersion) : ofLabel? v.label = some v := by
  cases v <;> rfl

/-- The codec that is tried first. -/
def primary : ChainVersion → Encoding
  | .columbus3 | .columbus4 => .amino
  | .columbus5 => .proto

/-- The codec that is tried when the first one fails. -/
def secondary (v : ChainVersion) : Encoding :=
  v.primary.other

/-- The oldest generation reports the number of transactions in the block header, the others beside
it. -/
def countInHeader (v : ChainVersion) : Bool :=
  v == .columbus3

/-- What is said of a chain id that names no generation. -/
def unsupported (id : String) : String :=
  s!"unsupported chain version '{id}'"

end ChainVersion

end ChainIndex
