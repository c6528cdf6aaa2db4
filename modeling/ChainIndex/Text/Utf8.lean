/-!
# UTF-8 bytes

Bytes as text, strictly or with the replacement character in place of what is not text.

* `decode?_encode`: strict reading inverts writing.
* `lossy`: each longest broken piece becomes one replacement character.
-/

namespace ChainIndex.Text.Utf8

/-- The bytes of a text. -/
def encode (s : String) : List UInt8 :=
  s.toUTF8.data.toList

/-- The text of the bytes, if they are one. -/
def decode? (bytes : List UInt8) : Option String :=
  String.fromUTF8? ⟨bytes.toArray⟩

theorem decode?_encode (s : String) : decode? (encode s) = some s := by
  simp [decode?, encode, String.fromUTF8?, s.isValidUTF8]
  rfl

theorem encode_eq_nil_iff {s : String} : encode s = [] ↔ s = "" := by
  refine ⟨fun h => ?_, fun h => by rw [h]; rfl⟩
  have hdecode := decode?_encode s
  rw [h] at hdecode
  exact (Option.some.inj hdecode).symm

/-- A byte that continues a character. -/
def isContinuation (b : UInt8) : Bool :=
  0x80 ≤ b && b ≤ 0xBF

/-- Whether `second` may follow the first byte of a character of three or four bytes: overlong forms,
surrogates and numbers past the last character are excluded here. -/
def mayFollow (first second : UInt8) : Bool :=
  isContinuation second &&
    (if first == 0xE0 then 0xA0 ≤ second
     else if first == 0xED then second ≤ 0x9F
     else if first == 0xF0 then 0x90 ≤ second
     else if first == 0xF4 then second ≤ 0x8F
     else true)

/-- The low bits that a continuing byte adds. -/
def extend (high : Nat) (b : UInt8) : Nat :=
  64 * high + b.toNat % 64

/-- The character that starts with `first`, if it is whole, and how many of the bytes after `first`
belong to it or to its broken piece. -/
def next (first : UInt8) (rest : List UInt8) : Option Char × Nat :=
  if first < 0x80 then (some (Char.ofNat first.toNat), 0)
  else if 0xC2 ≤ first && first ≤ 0xDF then
    match rest with
    | b :: _ =>
      if isContinuation b then (some (Char.ofNat (extend (first.toNat % 32) b)), 1) else (none, 0)
    | _ => (none, 0)
  else if 0xE0 ≤ first && first ≤ 0xEF then
    match rest with
    | b :: c :: _ =>
      if !mayFollow first b then (none, 0)
      else if !isContinuation c then (none, 1)
      else (some (Char.ofNat (extend (extend (first.toNat % 16) b) c)), 2)
    | [b] => (none, if mayFollow first b then 1 else 0)
    | [] => (none, 0)
  else if 0xF0 ≤ first && first ≤ 0xF4 then
    match rest with
    | b :: c :: d :: _ =>
      if !mayFollow first b then (none, 0)
      else if !isContinuation c then (none, 1)
      else if !isContinuation d then (none, 2)
      else (some (Char.ofNat (extend (extend (extend (first.toNat % 8) b) c) d)), 3)
    | [b, c] =>
      (none, if !mayFollow first b then 0 else if isContinuation c then 2 else 1)
    | [b] => (none, if mayFollow first b then 1 else 0)
    | [] => (none, 0)
  else (none, 0)

/-- The characters of the bytes, with U+FFFD for each broken piece. -/
def lossyList : List UInt8 → List Char
  | [] => []
  | b :: rest =>
    let (c, n) := next b rest
    c.getD '\uFFFD' :: lossyList (rest.drop n)
termination_by bytes => bytes.length
decreasing_by simp only [List.length_drop, List.length_cons]; omega

def lossy (bytes : List UInt8) : String :=
  String.ofList (lossyList bytes)

end ChainIndex.Text.Utf8
