import ChainIndex.Envelope.Amino
import ChainIndex.Envelope.Protobuf

/-!
# Decoding by encoding
-/

namespace ChainIndex.Envelope

open Wire (Bytes)

/-- The envelope of a transaction in the given encoding. -/
def decode (bytes : Bytes) : Encoding → Except Error Envelope
  | .amino => Amino.decode bytes
  | .proto => Protobuf.decode bytes

/-- The type and the bytes of a value of an open type. -/
def unpack (bytes : Bytes) : Encoding → Except Error RawMessage
  | .amino => Amino.unpack bytes
  | .proto => Protobuf.unpack bytes

end ChainIndex.Envelope
