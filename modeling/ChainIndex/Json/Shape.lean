import ChainIndex.Json.Codec

/-!
# Records in JSON

A record is written as an object with one member per field. It is read from such an object, in which
unknown names are passed over and no field may stand twice, or from an array of its fields in order,
which may stop early where the rest has defaults.

* `Shape.write`, `Shape.read`: a record as its fields say, and back.
-/

namespace ChainIndex.Json

/-- When a field may be left out. -/
inductive Presence where
  | required
  /-- It may be missing from an object but not from an array. -/
  | optional
  /-- It may be missing anywhere. -/
  | defaulted
deriving DecidableEq

/-- One field of a record. -/
structure Field (α : Type) where
  /-- The name it is written under. -/
  name : String
  /-- Further names it is read under. -/
  aliases : List String := []
  presence : Presence
  /-- The value to write, unless the field is left out. -/
  write : α → Option Json
  /-- Takes a value into the record. -/
  read : Json → α → Option α

namespace Field

variable {α β : Type}

/-- Whether the field is read under this name. -/
def answersTo (f : Field α) (name : String) : Bool :=
  name == f.name || f.aliases.contains name

def required (name : String) (c : Codec β) (get : α → β) (set : α → β → α) : Field α where
  name
  presence := .required
  write a := some (c.write (get a))
  read j a := (c.read j).map (set a)

/-- A field that is always written but need not be there. -/
def defaulted (name : String) (c : Codec β) (get : α → β) (set : α → β → α) : Field α :=
  { required name c get set with presence := .defaulted }

/-- A field whose absence means null. -/
def nullable (name : String) (c : Codec β) (get : α → Option β) (set : α → Option β → α) : Field α :=
  { required name c.option get set with presence := .optional }

/-- A field that is left out when it is empty. -/
def omitted (name : String) (c : Codec β) (get : α → β) (set : α → β → α) (isEmpty : β → Bool) :
    Field α where
  name
  presence := .defaulted
  write a := if isEmpty (get a) then none else some (c.write (get a))
  read j a := (c.read j).map (set a)

/-- A field that is read but never written. -/
def incoming (name : String) (presence : Presence) (take : Json → Option β) (set : α → β → α) :
    Field α where
  name
  presence
  write _ := none
  read j a := (take j).map (set a)

end Field

/-- The fields of a record, and the record to start from when one is read. -/
structure Shape (α : Type) where
  empty : α
  fields : List (Field α)

namespace Shape

variable {α : Type}

/-- The members that a record is written as. -/
def members (s : Shape α) (a : α) : List (String × Json) :=
  s.fields.filterMap fun f => (f.write a).map (f.name, ·)

/-- Takes the member of a field into the record. -/
def readMember (ms : List (String × Json)) (a : α) (f : Field α) : Option α :=
  match ms.filter fun m => f.answersTo m.1 with
  | [] => if f.presence = .required then none else some a
  | [m] => f.read m.2 a
  | _ => none

/-- Takes items into the record one field after the other. -/
def readItems : List (Field α) → List Json → α → Option α
  | [], [], a => some a
  | [], _ :: _, _ => none
  | f :: fs, [], a => if f.presence = .defaulted then readItems fs [] a else none
  | f :: fs, j :: js, a => (f.read j a).bind (readItems fs js)

def write (s : Shape α) (a : α) : Json :=
  .object (s.members a)

def read (s : Shape α) : Json → Option α
  | .object ms => s.fields.foldlM (readMember ms) s.empty
  | .array items => readItems s.fields items s.empty
  | _ => none

def codec (s : Shape α) : Codec α where
  write := s.write
  read := s.read

end Shape

end ChainIndex.Json
