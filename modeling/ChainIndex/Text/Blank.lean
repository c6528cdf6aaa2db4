/-!
# Blank characters

The 25 characters with the Unicode property White_Space, trimming by it, and the division of a text
at separators.

* `isBlank_of_isWhitespace`: the property extends the ASCII blanks.
* `fields_ne_nil`: a division always has at least one part.
-/

namespace ChainIndex.Text

/-- A character with the Unicode property White_Space. -/
def isBlank (c : Char) : Bool :=
  let n := c.toNat
  (0x09 ≤ n && n ≤ 0x0D) || n == 0x20 || n == 0x85 || n == 0xA0 || n == 0x1680 ||
    (0x2000 ≤ n && n ≤ 0x200A) || n == 0x2028 || n == 0x2029 || n == 0x202F || n == 0x205F ||
    n == 0x3000

theorem isBlank_of_isWhitespace (c : Char) (h : c.isWhitespace = true) : isBlank c = true := by
  simp [Char.isWhitespace] at h
  rcases h with ((h | h) | h) | h <;> subst h <;> decide

/-- The text without the blanks at its two ends. -/
def trim (s : List Char) : List Char :=
  ((s.dropWhile isBlank).reverse.dropWhile isBlank).reverse

/-- The string without the blanks at its two ends. -/
def trimmed (s : String) : String :=
  String.ofList (trim s.toList)

/-- A text of blanks only. -/
def allBlank (s : String) : Bool :=
  s.toList.all isBlank

/-- The parts of a text between the characters that satisfy `sep`; one more than there are such
characters. -/
def fields (sep : Char → Bool) : List Char → List (List Char)
  | [] => [[]]
  | c :: s =>
    if sep c then [] :: fields sep s
    else match fields sep s with
      | part :: parts => (c :: part) :: parts
      | [] => [[c]]

theorem fields_ne_nil (sep : Char → Bool) (s : List Char) : fields sep s ≠ [] := by
  cases s with
  | nil => simp [fields]
  | cons c s =>
    unfold fields
    split
    · simp
    · split <;> simp

/-- The text after the last character that satisfies `sep`, or the whole text. -/
def afterLast (sep : Char → Bool) (s : List Char) : List Char :=
  (s.reverse.takeWhile fun c => !sep c).reverse

end ChainIndex.Text
