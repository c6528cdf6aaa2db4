import ChainIndex.Amount.Basic
import ChainIndex.Json.Shape

/-!
# Amounts in JSON

The mantissa stands as text, so that it may be of any size.
-/

namespace ChainIndex.Amount

open ChainIndex.Json (Codec Field Shape)

def shape : Shape Amount where
  empty := {}
  fields := [
    .required "text" .text text fun a v => { a with text := v },
    .required "numeric" .bigInt numeric fun a v => { a with numeric := v },
    .required "exp" .int32 exp fun a v => { a with exp := v },
    .defaulted "currency" .text currency fun a v => { a with currency := v }]

def codec : Codec Amount := shape.codec

end ChainIndex.Amount
