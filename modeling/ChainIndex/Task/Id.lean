import ChainIndex.Json.Codec
import ChainIndex.Text.Hex

/-!
# Task identifiers

Identifiers of 128 bits. They are written as 32 hexadecimal digits in five groups, and read in that
form, without the hyphens, in braces or after `urn:uuid:`. Upper and lower case are the same.
-/

namespace ChainIndex

structure TaskId where
  bits : BitVec 128
deriving DecidableEq, Repr

instance : Inhabited TaskId := ⟨⟨0⟩⟩

namespace TaskId

/-- Hyphens between groups of 8, 4, 4, 4 and 12 digits. -/
def grouped (digits : List Char) : List Char :=
  digits.take 8 ++ '-' :: (digits.drop 8).take 4 ++ '-' :: (digits.drop 12).take 4 ++
    '-' :: (digits.drop 16).take 4 ++ '-' :: digits.drop 20

def text (id : TaskId) : String :=
  let digits := Nat.toDigits 16 id.bits.toNat
  String.ofList (grouped (List.replicate (32 - digits.length) '0' ++ digits))

/-- Bits with some of them replaced: `value` stands where `mask` has ones, both moved to the left. -/
def withField (bits mask value : BitVec 128) (place : Nat) : BitVec 128 :=
  (bits &&& ~~~(mask <<< place)) ||| (value <<< place)

/-- The identifier that random bits make; six of its bits say that it is random. -/
def ofRandom (n : Nat) : TaskId :=
  ⟨withField (withField (BitVec.ofNat 128 n) 0xf 0x4 76) 0x3 0x2 62⟩

/-- The identifier of 32 hexadecimal digits. -/
def ofDigits? (digits : List Char) : Option TaskId := do
  if digits.length ≠ 32 then none
  let values ← digits.mapM Text.Hex.value?
  return ⟨BitVec.ofNat 128 (values.foldl (fun n v => 16 * n + v) 0)⟩

/-- The identifier of five groups of digits with hyphens between them. -/
def ofGroups? (s : List Char) : Option TaskId :=
  let digits := s.filter (· != '-')
  if grouped digits = s then ofDigits? digits else none

def ofChars? (s : List Char) : Option TaskId :=
  if s.length = 32 then ofDigits? s
  else if s.length = 36 then ofGroups? s
  else if s.length = 38 ∧ s.head? = some '\x7b' ∧ s.getLast? = some '\x7d' then
    ofGroups? ((s.drop 1).take 36)
  else if s.length = 45 ∧ (s.take 9).map Char.toLower = "urn:uuid:".toList then ofGroups? (s.drop 9)
  else none

def ofText? (s : String) : Option TaskId :=
  ofChars? s.toList

def codec : Json.Codec TaskId :=
  Json.Codec.text.via text ofText?

end TaskId

end ChainIndex
