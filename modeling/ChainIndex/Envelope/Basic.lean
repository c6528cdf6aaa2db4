import ChainIndex.Chain.Version
import ChainIndex.Wire.Layout

/-!
# Envelopes of transactions

Both encodings wrap a transaction's messages in the same things: a memo and a fee. Each message keeps
its bytes and a tag that names its type.
-/

namespace ChainIndex

open Wire (Bytes Field Layout)

/-- An amount of a denomination, as a decimal text. -/
structure Coin where
  denom : String := ""
  amount : String := ""
deriving DecidableEq, Repr, Inhabited

def Coin.layout : Layout Coin where
  name := "Coin"
  empty := {}
  fields := [
    .single .text 1 "denom" denom fun c v => { c with denom := v },
    .single .text 2 "amount" amount fun c v => { c with amount := v }]

/-- A message that is not decoded yet. -/
structure RawMessage where
  /-- A registered name or a type URL. -/
  typeTag : String := ""
  payload : Bytes := []
deriving DecidableEq, Repr, Inhabited

/-- A transaction without its signatures, independent of the encoding. -/
structure Envelope where
  messages : List RawMessage := []
  memo : String := ""
  fee : List Coin := []
  encoding : Encoding
deriving DecidableEq, Repr

namespace Envelope

/-- Why bytes are no transaction, or no wrapped value. -/
inductive Error where
  | unreadable (encoding : Encoding) (source : Wire.ReadError)
  /-- The length in front says more than there is. -/
  | length (declared available : Nat)
  | missingTypePrefix
  | unexpectedType (typeTag : String)
  | emptyTypeUrl (index : Nat)
deriving DecidableEq, Repr

def Error.message : Error → String
  | .unreadable encoding source => s!"{encoding.label} decode failed: {source.message}"
  | .length declared available =>
    s!"length prefix says {declared} bytes, {available} available"
  | .missingTypePrefix => "interface value shorter than its 4-byte type prefix"
  | .unexpectedType typeTag => s!"unexpected envelope type '{typeTag}'"
  | .emptyTypeUrl index => s!"message {index} has an empty type URL"

end Envelope

end ChainIndex
