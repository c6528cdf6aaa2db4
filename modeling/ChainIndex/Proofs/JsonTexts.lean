import ChainIndex.Json.Printer
import ChainIndex.Proofs.JsonNumbers
import Mathlib.Data.List.Forall2
import Mathlib.Data.String.Basic

/-!
# The texts of JSON values

`IsText` says which characters are a text of a value, without blanks between the tokens: a character may be
escaped in more than one way, and a double may be any number that rounds to it. The printer chooses one of
these texts.

* `isText_print`: **what is printed of a value is a text of it.**
-/

namespace ChainIndex.Json

/-! ## The grammar -/

/-- The letters that stand for a character behind a backslash. -/
def letters : List (Char × Char) :=
  [('"', '"'), ('\\', '\\'), ('/', '/'), ('b', '\x08'), ('f', '\x0c'), ('n', '\n'), ('r', '\r'), ('t', '\t')]

/-- How a character may stand between quotes. -/
inductive Spells : Char → List Char → Prop where
  | plain {c : Char} (h : 32 ≤ c.toNat ∧ c ≠ '"' ∧ c ≠ '\\') : Spells c [c]
  | letter {e c : Char} (h : (e, c) ∈ letters) : Spells c ['\\', e]
  /-- By its number, with four hexadecimal digits. -/
  | coded {c : Char} (h : c.toNat < 0x10000) :
    Spells c ('\\' :: 'u' :: [c.toNat / 4096, c.toNat / 256 % 16, c.toNat / 16 % 16, c.toNat % 16].map
      Nat.digitChar)

/-- The text between quotes. -/
def Quotes (s : String) (quoted : List Char) : Prop :=
  ∃ parts, List.Forall₂ Spells s.toList parts ∧ quoted = '"' :: (parts.flatten ++ ['"'])

/-- A name before its value. -/
def member (name value : List Char) : List Char :=
  name ++ ':' :: value

/-- The characters are a JSON text of the value. A part without a value stands as null. -/
inductive IsText : Json → List Char → Prop where
  | null : IsText .null "null".toList
  | bool (b : Bool) : IsText (.bool b) (if b then "true".toList else "false".toList)
  | integer (n : ℤ) : IsText (.integer n) (toString n).toList
  | float {bits : UInt64} {t : Numeral} (hproper : t.Proper) (hdenotes : t.Denotes bits) :
    IsText (.float bits) t.spelling
  | text {s : String} {quoted : List Char} (h : Quotes s quoted) : IsText (.text s) quoted
  | array {items : List Json} {texts : List (List Char)} (h : List.Forall₂ IsText items texts) :
    IsText (.array items) ('[' :: ([','].intercalate texts ++ [']']))
  | object {members : List (String × Json)} {names values : List (List Char)}
    (hnames : List.Forall₂ Quotes (members.map Prod.fst) names)
    (hvalues : List.Forall₂ IsText (members.map Prod.snd) values) :
    IsText (.object members)
      ('\x7b' :: ([','].intercalate (List.zipWith member names values) ++ ['\x7d']))
  | unreadable : IsText .unreadable "null".toList

/-! ## What is printed -/

/-- A control character has two zeros before its two digits. -/
theorem ofByte_toNat {c : Char} (h : c.toNat < 32) :
    '\\' :: 'u' :: '0' :: '0' :: Text.Hex.ofByte (UInt8.ofNat c.toNat) = '\\' :: 'u' ::
      [c.toNat / 4096, c.toNat / 256 % 16, c.toNat / 16 % 16, c.toNat % 16].map Nat.digitChar := by
  have hall : ∀ n < 32, '0' :: '0' :: Text.Hex.ofByte (UInt8.ofNat n) =
      [n / 4096, n / 256 % 16, n / 16 % 16, n % 16].map Nat.digitChar := by decide
  rw [hall c.toNat h]

theorem spells_escape (c : Char) : Spells c (escape c) := by
  unfold escape
  split_ifs with h₁ h₂ h₃ h₄ h₅ h₆ h₇ h₈
  · exact .letter (by subst h₁; decide)
  · exact .letter (by subst h₂; decide)
  · exact .letter (by subst h₃; decide)
  · exact .letter (by subst h₄; decide)
  · exact .letter (by subst h₅; decide)
  · exact .letter (by subst h₆; decide)
  · exact .letter (by subst h₇; decide)
  · rw [ofByte_toNat h₈]
    exact .coded (h₈.trans (by decide))
  · exact .plain ⟨Nat.not_lt.1 h₈, h₁, h₂⟩

theorem quotes_quoted (s : String) : Quotes s (quoted s).toList := by
  refine ⟨s.toList.map escape, ?_, ?_⟩
  · rw [List.forall₂_map_right_iff]
    exact List.forall₂_same.2 fun c _ => spells_escape c
  · rw [quoted, String.toList_ofList, List.flatMap_def]

mutual

/-- **What is printed of a value is a text of it.** -/
theorem isText_print : (j : Json) → IsText j j.print.toList
  | .null => .null
  | .bool true => .bool true
  | .bool false => .bool false
  | .integer n => .integer n
  | .float bits => by
    obtain ⟨t, htext, hproper, hdenotes⟩ := floatText_denotes bits
    rw [print, ← htext]
    exact .float hproper hdenotes
  | .text s => .text (quotes_quoted s)
  | .array items => by
    obtain ⟨texts, htexts, hprint⟩ := isText_printItems items
    have h := IsText.array htexts
    rw [← hprint] at h
    simpa [print] using h
  | .object members => by
    obtain ⟨names, values, hnames, hvalues, hprint⟩ := isText_printMembers members
    have h := IsText.object hnames hvalues
    rw [← hprint] at h
    simpa [print] using h
  | .unreadable => .unreadable

theorem isText_printItems : (items : List Json) →
    ∃ texts, List.Forall₂ IsText items texts ∧ (printItems items).toList = [','].intercalate texts
  | [] => ⟨[], .nil, rfl⟩
  | [j] => ⟨[j.print.toList], .cons (isText_print j) .nil, by simp [printItems, List.intercalate]⟩
  | j :: k :: rest => by
    obtain ⟨texts, htexts, hprint⟩ := isText_printItems (k :: rest)
    refine ⟨j.print.toList :: texts, .cons (isText_print j) htexts, ?_⟩
    rw [List.intercalate_cons_of_ne_nil (by rintro rfl; cases htexts), ← hprint, printItems,
      String.toList_append, String.toList_append]
    · rfl
    · exact nofun

theorem isText_printMembers : (members : List (String × Json)) →
    ∃ names values, List.Forall₂ Quotes (members.map Prod.fst) names ∧
      List.Forall₂ IsText (members.map Prod.snd) values ∧
      (printMembers members).toList = [','].intercalate (List.zipWith member names values)
  | [] => ⟨[], [], .nil, .nil, rfl⟩
  | [(k, j)] => ⟨[(quoted k).toList], [j.print.toList], .cons (quotes_quoted k) .nil,
      .cons (isText_print j) .nil, by simp [printMembers, List.intercalate, member]⟩
  | (k, j) :: m :: rest => by
    obtain ⟨names, values, hnames, hvalues, hprint⟩ := isText_printMembers (m :: rest)
    refine ⟨(quoted k).toList :: names, j.print.toList :: values, .cons (quotes_quoted k) hnames,
      .cons (isText_print j) hvalues, ?_⟩
    have hne : List.zipWith member names values ≠ [] := by
      cases hnames
      cases hvalues
      exact List.cons_ne_nil _ _
    rw [List.zipWith_cons_cons, List.intercalate_cons_of_ne_nil hne, ← hprint, printMembers]
    · simp [member]
    · exact nofun

end

end ChainIndex.Json
