import ChainIndex.Json.Basic
import ChainIndex.Text.Digits

/-!
# Typed JSON

A codec writes the values of a type and reads them back, refusing what does not fit. Numbers have to
be integers within their range, and only optional values may be null.
-/

namespace ChainIndex.Json

/-- How the values of a type are written and read. -/
structure Codec (α : Type) where
  write : α → Json
  read : Json → Option α

namespace Codec

variable {α β : Type}

def text : Codec String where
  write := .text
  read
    | .text s => some s
    | _ => none

def bool : Codec Bool where
  write := .bool
  read
    | .bool b => some b
    | _ => none

/-- Natural numbers below `bound`. -/
def below (bound : Nat) : Codec Nat where
  write n := .integer n
  read
    | .integer n => if 0 ≤ n ∧ n < bound then some n.toNat else none
    | _ => none

/-- A codec of a type that another one represents. -/
def via (c : Codec β) (represent : α → β) (restore : β → Option α) : Codec α where
  write a := c.write (represent a)
  read j := (c.read j).bind restore

def word32 : Codec UInt32 :=
  (below UInt32.size).via UInt32.toNat fun n => some (UInt32.ofNat n)

def word64 : Codec UInt64 :=
  (below UInt64.size).via UInt64.toNat fun n => some (UInt64.ofNat n)

def int32 : Codec Int32 where
  write n := .integer n.toInt
  read
    | .integer n => if -0x80000000 ≤ n ∧ n < 0x80000000 then some (Int32.ofInt n) else none
    | _ => none

/-- An integer of any size as text. -/
def bigInt : Codec Int :=
  text.via toString fun s => Text.signed? s.toList

def list (c : Codec α) : Codec (List α) where
  write xs := .array (xs.map c.write)
  read
    | .array items => items.mapM c.read
    | _ => none

/-- A value or null. -/
def option (c : Codec α) : Codec (Option α) where
  write
    | none => .null
    | some a => c.write a
  read
    | .null => some none
    | j => (c.read j).map some

/-- Any value, with sorted member names. -/
def free : Codec Json where
  write j := j
  read := canonical?

/-- One of a list of named values, written as its name. It may also be read from an object whose
single member has that name and is null. -/
def named (label : α → String) (values : List α) : Codec α where
  write a := .text (label a)
  read
    | .text s => values.find? fun a => label a == s
    | .object [(s, .null)] => values.find? fun a => label a == s
    | _ => none

end Codec

end ChainIndex.Json
