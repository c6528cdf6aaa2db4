import ChainIndex.Json.Number
import ChainIndex.Text.Hex

/-!
# JSON text

The text of a value, without blanks.
-/

namespace ChainIndex.Json

/-- A character as it stands between quotes. -/
def escape (c : Char) : List Char :=
  if c = '"' then ['\\', '"']
  else if c = '\\' then ['\\', '\\']
  else if c = '\x08' then ['\\', 'b']
  else if c = '\x0c' then ['\\', 'f']
  else if c = '\n' then ['\\', 'n']
  else if c = '\r' then ['\\', 'r']
  else if c = '\t' then ['\\', 't']
  else if c.toNat < 32 then '\\' :: 'u' :: '0' :: '0' :: Text.Hex.ofByte (UInt8.ofNat c.toNat)
  else [c]

/-- A text between quotes. -/
def quoted (s : String) : String :=
  String.ofList ('"' :: (s.toList.flatMap escape ++ ['"']))

mutual

/-- The text of a value; an unreadable part stands as `null`. -/
def print : Json → String
  | .null => "null"
  | .bool b => if b then "true" else "false"
  | .integer n => toString n
  | .float bits => floatText bits
  | .text s => quoted s
  | .array items => "[" ++ printItems items ++ "]"
  | .object members => "\x7b" ++ printMembers members ++ "\x7d"
  | .unreadable => "null"

def printItems : List Json → String
  | [] => ""
  | [j] => print j
  | j :: rest => print j ++ "," ++ printItems rest

def printMembers : List (String × Json) → String
  | [] => ""
  | [(k, j)] => quoted k ++ ":" ++ print j
  | (k, j) :: rest => quoted k ++ ":" ++ print j ++ "," ++ printMembers rest

end

end ChainIndex.Json
