import ChainIndex.Json.Shape
import ChainIndex.Time.Rfc3339

/-!
# Blocks
-/

namespace ChainIndex

/-- The number of a block; the first one is 1. -/
abbrev Height := UInt64

/-- What is known of a block without its transactions. -/
structure Block where
  hash : String := ""
  height : Height := 0
  time : Time := default
  chainId : String := ""
  transactionCount : UInt64 := 0
deriving DecidableEq, Repr, Inhabited

namespace Block

open Json (Codec Field Shape)

def shape : Shape Block where
  empty := {}
  fields := [
    .required "hash" .text hash fun b v => { b with hash := v },
    .required "height" .word64 height fun b v => { b with height := v },
    .required "time" Time.codec time fun b v => { b with time := v },
    .required "chain_id" .text chainId fun b v => { b with chainId := v },
    .required "number_of_transactions" .word64 transactionCount
      fun b v => { b with transactionCount := v }]

def codec : Codec Block := shape.codec

end Block

end ChainIndex
