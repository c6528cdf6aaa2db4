import ChainIndex.Proofs.Identifiers
import ChainIndex.Proofs.JsonTexts

/-!
# JSON texts are read back

The reader goes down one level for each bracket, and each of its calls takes a character or is made by one
that did. So twice the length of a text is depth enough (`value?_text`), and nothing is left over but what
follows the value. Doubles are left out: their digits are read as they stand (`value?_numeral`), but the
arithmetic that makes a double of them again is not exact.

* `parse?_text`: **a text is read back as the value it was written from.**
-/

namespace ChainIndex.Json

/-! ## Strings -/

theorem chars?_map_char (cs : List Char) : chars? (cs.map .char) = some cs := by
  induction cs with
  | nil => rfl
  | cons c cs ih => rw [List.map_cons, chars?, ih, Option.map_some]

theorem quad?_digits {n : ℕ} (h : n < 0x10000) :
    quad? (n / 4096).digitChar (n / 256 % 16).digitChar (n / 16 % 16).digitChar (n % 16).digitChar =
      some n := by
  have hvalue (k : ℕ) : Text.Hex.value? (k % 16).digitChar = some (k % 16) :=
    Text.Hex.value?_digitChar (Nat.mod_lt k (by decide))
  rw [quad?, Text.Hex.value?_digitChar (by omega), hvalue, hvalue, hvalue]
  simp only [Option.bind_eq_bind, Option.bind_some, Option.pure_def, Option.some.injEq]
  omega

/-- A character is no half of a surrogate pair. -/
theorem unit16_ofNat (c : Char) : Unit16.ofNat c.toNat = .char c := by
  have hvalid : c.toNat < 0xD800 ∨ 0xDFFF < c.toNat ∧ c.toNat < 0x110000 := c.valid
  rw [Unit16.ofNat, if_neg (by omega), if_neg (by omega), Char.ofNat_toNat]

theorem unescape?_letters : ∀ p ∈ letters, unescape? p.1 = some p.2 ∧ p.1 ≠ 'u' := by
  decide

/-- One character is read. -/
theorem units?_spells {c : Char} {part s : List Char} (h : Spells c part) :
    units? (part ++ s) = (units? s).map fun p => (.char c :: p.1, p.2) := by
  cases h with
  | plain h =>
    obtain ⟨hvisible, hquote, hslash⟩ := h
    rw [List.singleton_append, units?]
    · rw [if_neg (by simp [hslash]; omega)]
      cases units? s <;> rfl
    · exact hquote
    · rintro _ _ _ _ _ rfl
      exact absurd rfl hslash
    · rintro _ _ rfl
      exact absurd rfl hslash
  | letter h =>
    obtain ⟨hchar, hcoded⟩ := unescape?_letters _ h
    rw [List.cons_append, List.singleton_append, units?]
    · simp only [hchar, Option.bind_eq_bind, Option.bind_some]
      cases units? s <;> rfl
    · rintro _ _ _ _ _ rfl
      exact absurd rfl hcoded
  | coded h =>
    simp only [List.map_cons, List.map_nil, List.cons_append, List.nil_append, units?, quad?_digits h]
    rw [Option.bind_eq_bind, Option.bind_some, unit16_ofNat]
    cases units? s <;> rfl

theorem units?_flatten {cs : List Char} {parts : List (List Char)} (h : List.Forall₂ Spells cs parts)
    (rest : List Char) : units? (parts.flatten ++ '"' :: rest) = some (cs.map .char, rest) := by
  induction h with
  | nil => rfl
  | cons hc _ ih => rw [List.flatten_cons, List.append_assoc, units?_spells hc, ih]; rfl

theorem string?_quotes {s : String} {quoted : List Char} (h : Quotes s quoted) (rest : List Char) :
    ∃ body, quoted = '"' :: body ∧ string? (body ++ rest) = some (some s, rest) := by
  obtain ⟨parts, hparts, rfl⟩ := h
  refine ⟨_, rfl, ?_⟩
  rw [List.append_assoc, List.singleton_append, string?, units?_flatten hparts]
  simp only [Option.bind_eq_bind, Option.bind_some, chars?_map_char, Option.map_some,
    String.ofList_toList]
  rfl

/-- A value that is kept exactly: its integers fit a machine word, and no part is a double. -/
inductive Exact : Json → Prop where
  | null : Exact .null
  | bool (b : Bool) : Exact (.bool b)
  | integer {n : ℤ} (h : -0x8000000000000000 ≤ n ∧ n < 0x10000000000000000) : Exact (.integer n)
  | text (s : String) : Exact (.text s)
  | array {items : List Json} (h : ∀ j ∈ items, Exact j) : Exact (.array items)
  | object {members : List (String × Json)} (h : ∀ m ∈ members, Exact m.2) : Exact (.object members)

theorem skipGap_cons {c : Char} (h : isGap c = false) (s : List Char) : skipGap (c :: s) = c :: s :=
  List.dropWhile_cons_of_neg (Bool.eq_false_iff.1 h)

/-- The characters that a number token may begin with mean nothing else. -/
theorem isGap_sign {c : Char} (h : c = '-' ∨ c.isDigit = true) :
    isGap c = false ∧ c ∉ ['"', '[', ']', '\x7b', 'n', 't', 'f'] := by
  rcases h with rfl | h
  · decide
  · refine ⟨Bool.eq_false_iff.2 fun hgap => ?_, fun hmark => ?_⟩
    · simp only [isGap, Bool.or_eq_true, beq_iff_eq, or_assoc] at hgap
      rcases hgap with rfl | rfl | rfl | rfl <;> cases h
    · simp only [List.mem_cons, List.not_mem_nil, or_false] at hmark
      rcases hmark with rfl | rfl | rfl | rfl | rfl | rfl | rfl <;> cases h

/-- A text begins with a character that is no blank and closes no bracket. -/
theorem IsText.cons {j : Json} {s : List Char} (h : IsText j s) :
    ∃ c cs, s = c :: cs ∧ isGap c = false ∧ c ≠ ']' := by
  have htoken {t : Numeral} (ht : t.Proper) :
      ∃ c cs, t.spelling = c :: cs ∧ isGap c = false ∧ c ≠ ']' := by
    obtain ⟨c, cs, hcs, hc⟩ := ht.cons
    obtain ⟨hgap, hmarks⟩ := isGap_sign hc
    exact ⟨c, cs, hcs, hgap, fun h => hmarks (by simp [h])⟩
  cases h with
  | null => exact ⟨_, _, rfl, rfl, by decide⟩
  | bool b => cases b <;> exact ⟨_, _, rfl, rfl, by decide⟩
  | integer n => exact spelling_ofInt n ▸ htoken (proper_ofInt n)
  | float hproper _ => exact htoken hproper
  | text h =>
    obtain ⟨parts, -, rfl⟩ := h
    exact ⟨_, _, rfl, rfl, by decide⟩
  | array h => exact ⟨_, _, rfl, rfl, by decide⟩
  | object hnames hvalues => exact ⟨_, _, rfl, rfl, by decide⟩
  | unreadable => exact ⟨_, _, rfl, rfl, by decide⟩

theorem value?_numeral {t : Numeral} {rest : List Char} (h : t.Proper) (hrest : Ends rest)
    (fuel level : ℕ) : value? (fuel + 1) level (t.spelling ++ rest) = some (ofNumeral t, rest) := by
  have hread := numeral?_spelling h hrest
  obtain ⟨c, cs, hcs, hc⟩ := h.cons
  obtain ⟨hgap, hmarks⟩ := isGap_sign hc
  rw [hcs] at hread ⊢
  rw [value?, List.cons_append, skipGap_cons hgap]
  -- only the last branch reads a number, and all others ask for one of the marks
  split
  case h_7 => exact congrArg (Option.map _) hread
  all_goals
    next heq =>
      obtain ⟨rfl, -⟩ := List.cons.inj heq
      exact absurd (by decide) hmarks

/-! ### Steps of the reader -/

section Steps

variable {fuel level : ℕ} {c : Char} {s rest rest' : List Char} {j : Json} {items : List Json}
  {name : String} {members : List (String × Json)}

theorem value?_array (hfirst : isGap c = false ∧ c ≠ ']') (hlevel : level + 1 < depthLimit)
    (h : items? fuel (level + 1) (c :: s) = some (items, rest)) :
    value? (fuel + 1) level ('[' :: c :: s) = some (.array items, rest) := by
  rw [value?, skipGap_cons rfl]
  simp only [skipGap_cons hfirst.1]
  split
  · next heq => exact absurd (List.cons.inj heq).1 hfirst.2
  · simp [h, hlevel]

theorem value?_array_nil (hlevel : level + 1 < depthLimit) :
    value? (fuel + 1) level ('[' :: ']' :: rest) = some (.array [], rest) := by
  rw [value?, skipGap_cons rfl]
  simp [skipGap_cons, isGap, hlevel]

theorem items?_last (h : value? fuel level s = some (j, ']' :: rest)) :
    items? (fuel + 1) level s = some ([j], rest) := by
  rw [items?, h]
  rfl

theorem items?_cons (h : value? fuel level s = some (j, ',' :: rest'))
    (hrest : items? fuel level rest' = some (items, rest)) :
    items? (fuel + 1) level s = some (j :: items, rest) := by
  rw [items?, h]
  simp [skipGap_cons, isGap, hrest]

theorem value?_object_nil (hlevel : level + 1 < depthLimit) :
    value? (fuel + 1) level ('\x7b' :: '\x7d' :: rest) = some (.object [], rest) := by
  rw [value?, skipGap_cons rfl]
  simp [skipGap_cons, isGap, hlevel]

theorem value?_object (hlevel : level + 1 < depthLimit)
    (h : members? fuel (level + 1) ('"' :: s) = some (some members, rest)) :
    value? (fuel + 1) level ('\x7b' :: '"' :: s) = some (.object members, rest) := by
  rw [value?, skipGap_cons rfl]
  simp [skipGap_cons, isGap, h, hlevel]

theorem members?_last {body : List Char} (hname : string? (body ++ ':' :: s) = some (some name, ':' :: s))
    (h : value? fuel level s = some (j, '\x7d' :: rest)) :
    members? (fuel + 1) level ('"' :: (body ++ ':' :: s)) = some (some [(name, j)], rest) := by
  rw [members?, skipGap_cons rfl]
  simp [hname, skipGap_cons, isGap, h]

theorem members?_cons {body : List Char} (hname : string? (body ++ ':' :: s) = some (some name, ':' :: s))
    (h : value? fuel level s = some (j, ',' :: rest'))
    (hrest : members? fuel level rest' = some (some members, rest)) :
    members? (fuel + 1) level ('"' :: (body ++ ':' :: s)) = some (some ((name, j) :: members), rest) := by
  rw [members?, skipGap_cons rfl]
  simp [hname, skipGap_cons, isGap, h, hrest]

end Steps

/-! ### Whole texts -/

theorem IsText.length_pos {j : Json} {s : List Char} (h : IsText j s) : 0 < s.length := by
  obtain ⟨c, cs, rfl, -⟩ := h.cons
  exact Nat.succ_pos _

/-- Texts with commas between them begin as the first one does. -/
theorem exists_first {j : Json} {js : List Json} {texts : List (List Char)}
    (h : List.Forall₂ IsText (j :: js) texts) (rest : List Char) :
    ∃ c cs, [','].intercalate texts ++ rest = c :: cs ∧ isGap c = false ∧ c ≠ ']' := by
  cases h with
  | @cons _ s _ texts hj hjs =>
    obtain ⟨c, cs, rfl, hfirst⟩ := hj.cons
    cases texts with
    | nil => exact ⟨c, cs ++ rest, by rw [List.intercalate_singleton]; rfl, hfirst⟩
    | cons t texts => exact ⟨c, _, by rw [List.intercalate_cons_cons]; rfl, hfirst⟩

theorem exists_quote {m : String × Json} {ms : List (String × Json)} {names values : List (List Char)}
    (hnames : List.Forall₂ Quotes ((m :: ms).map Prod.fst) names)
    (hvalues : List.Forall₂ IsText ((m :: ms).map Prod.snd) values) (rest : List Char) :
    ∃ cs, [','].intercalate (List.zipWith member names values) ++ rest = '"' :: cs := by
  cases hnames with
  | @cons _ name _ names hname hnames =>
    cases hvalues with
    | @cons _ value _ values hvalue hvalues =>
      obtain ⟨parts, -, rfl⟩ := hname
      cases hmore : List.zipWith member names values with
      | nil => exact ⟨_, by rw [List.zipWith_cons_cons, hmore, List.intercalate_singleton]; rfl⟩
      | cons t texts => exact ⟨_, by rw [List.zipWith_cons_cons, hmore, List.intercalate_cons_cons]; rfl⟩

mutual

/-- **A value is read from its text**, when its parts are kept exactly and are not nested too deep. -/
theorem value?_text : (j : Json) → {s : List Char} → IsText j s → Exact j →
    {fuel level : ℕ} → 2 * s.length ≤ fuel + 1 → level + j.depth < depthLimit → {rest : List Char} →
    Ends rest → value? (fuel + 1) level (s ++ rest) = some (j, rest)
  | .null, _, h, _, _, _, _, _, _, _ => by
    cases h
    rfl
  | .bool b, _, h, _, _, _, _, _, _, _ => by
    cases h
    cases b <;> rfl
  | .integer n, _, h, hexact, fuel, level, _, _, _, hrest => by
    cases h
    cases hexact with
    | integer hn => rw [← spelling_ofInt, value?_numeral (proper_ofInt n) hrest, ofNumeral_ofInt hn]
  | .float _, _, _, hexact, _, _, _, _, _, _ => by cases hexact
  | .unreadable, _, _, hexact, _, _, _, _, _, _ => by cases hexact
  | .text s, _, h, _, _, _, _, _, rest, _ => by
    cases h with
    | text h =>
      obtain ⟨body, rfl, hread⟩ := string?_quotes h rest
      rw [value?, List.cons_append, skipGap_cons rfl]
      simp only [hread, Option.bind_eq_bind, Option.bind_some]
      rfl
  | .array [], _, h, _, _, _, _, hdepth, _, _ => by
    cases h with
    | array h =>
      cases h
      exact value?_array_nil hdepth
  | .array (j :: js), _, h, hexact, fuel, level, hfuel, hdepth, rest, _ => by
    cases h with
    | @array _ texts h =>
      cases hexact with
      | array hexact =>
        have hitems := items?_texts (j :: js) h hexact (List.cons_ne_nil j js) fuel (level + 1)
          (by simp at hfuel; omega) (by rw [depth] at hdepth; omega) rest
        obtain ⟨c, cs, hcs, hfirst⟩ := exists_first h (']' :: rest)
        rw [hcs] at hitems
        rw [List.cons_append, List.append_assoc, List.singleton_append, hcs]
        exact value?_array hfirst (by rw [depth] at hdepth; omega) hitems
  | .object [], _, h, _, _, _, _, hdepth, _, _ => by
    cases h with
    | object hnames hvalues =>
      cases hnames
      exact value?_object_nil hdepth
  | .object (m :: ms), _, h, hexact, fuel, level, hfuel, hdepth, rest, _ => by
    cases h with
    | @object _ names values hnames hvalues =>
      cases hexact with
      | object hexact =>
        have hmembers := members?_texts (m :: ms) hnames hvalues hexact (List.cons_ne_nil m ms) fuel
          (level + 1) (by simp at hfuel; omega) (by rw [depth] at hdepth; omega) rest
        obtain ⟨cs, hcs⟩ := exists_quote hnames hvalues ('\x7d' :: rest)
        rw [hcs] at hmembers
        rw [List.cons_append, List.append_assoc, List.singleton_append, hcs]
        exact value?_object (by rw [depth] at hdepth; omega) hmembers

theorem items?_texts : (items : List Json) → {texts : List (List Char)} →
    List.Forall₂ IsText items texts → (∀ j ∈ items, Exact j) → items ≠ [] → (fuel level : ℕ) →
    2 * ([','].intercalate texts).length + 1 ≤ fuel → level + depthItems items < depthLimit →
    (rest : List Char) →
    items? fuel level ([','].intercalate texts ++ ']' :: rest) = some (items, rest)
  | [], _, _, _, hne, _, _, _, _, _ => absurd rfl hne
  | [j], _, h, hexact, _, fuel, level, hfuel, hdepth, rest => by
    cases h with
    | @cons _ s _ _ hj hjs =>
      cases hjs
      have hpos := hj.length_pos
      rw [List.intercalate_singleton] at hfuel ⊢
      -- an item is not empty, so there is depth for `items?` here and for `value?` below it
      obtain ⟨fuel, rfl⟩ : ∃ f, fuel = f + 2 := ⟨fuel - 2, by omega⟩
      exact items?_last (value?_text j hj (hexact j List.mem_cons_self) (by omega)
        (by rw [depthItems] at hdepth; omega) (by rintro _ ⟨⟩; decide))
  | j :: k :: js, _, h, hexact, _, fuel, level, hfuel, hdepth, rest => by
    cases h with
    | @cons _ s _ texts hj hjs =>
      have hpos := hj.length_pos
      have hne : texts ≠ [] := by
        rintro rfl
        cases hjs
      rw [List.intercalate_cons_of_ne_nil hne] at hfuel ⊢
      simp only [List.length_append, List.length_singleton] at hfuel
      obtain ⟨fuel, rfl⟩ : ∃ f, fuel = f + 2 := ⟨fuel - 2, by omega⟩
      rw [depthItems] at hdepth
      have hrest := items?_texts (k :: js) hjs (fun j hj => hexact j (List.mem_cons_of_mem _ hj))
        (List.cons_ne_nil k js) (fuel + 1) level (by omega) (by omega) rest
      rw [List.append_assoc, List.append_assoc]
      exact items?_cons (value?_text j hj (hexact j List.mem_cons_self) (by omega) (by omega)
        (by rintro _ ⟨⟩; decide)) hrest

theorem members?_texts : (members : List (String × Json)) → {names values : List (List Char)} →
    List.Forall₂ Quotes (members.map Prod.fst) names →
    List.Forall₂ IsText (members.map Prod.snd) values → (∀ m ∈ members, Exact m.2) → members ≠ [] →
    (fuel level : ℕ) →
    2 * ([','].intercalate (List.zipWith member names values)).length + 1 ≤ fuel →
    level + depthMembers members < depthLimit → (rest : List Char) →
    members? fuel level ([','].intercalate (List.zipWith member names values) ++ '\x7d' :: rest) =
      some (some members, rest)
  | [], _, _, _, _, _, hne, _, _, _, _, _ => absurd rfl hne
  | [(k, j)], _, _, hnames, hvalues, hexact, _, fuel, level, hfuel, hdepth, rest => by
    cases hnames with
    | cons hname hnames =>
      cases hnames
      cases hvalues with
      | @cons _ value _ _ hvalue hvalues =>
        cases hvalues
        have hpos := hvalue.length_pos
        -- a name is read together with all that follows it, up to the end of the object
        obtain ⟨body, rfl, hread⟩ := string?_quotes hname (':' :: (value ++ '\x7d' :: rest))
        simp only [List.zipWith_cons_cons, List.zipWith_nil_left, List.intercalate_singleton, member,
          List.cons_append, List.append_assoc, List.length_cons, List.length_append] at hfuel ⊢
        obtain ⟨fuel, rfl⟩ : ∃ f, fuel = f + 2 := ⟨fuel - 2, by omega⟩
        exact members?_last hread (value?_text j hvalue (hexact _ List.mem_cons_self) (by omega)
          (by rw [depthMembers] at hdepth; omega) (by rintro _ ⟨⟩; decide))
  | (k, j) :: m :: ms, _, _, hnames, hvalues, hexact, _, fuel, level, hfuel, hdepth, rest => by
    cases hnames with
    | @cons _ _ _ names hname hnames =>
      cases hvalues with
      | @cons _ value _ values hvalue hvalues =>
        have hpos := hvalue.length_pos
        have hne : List.zipWith member names values ≠ [] := by
          cases hnames
          cases hvalues
          exact List.cons_ne_nil _ _
        obtain ⟨body, rfl, hread⟩ := string?_quotes hname
          (':' :: (value ++ ',' :: ([','].intercalate (List.zipWith member names values) ++ '\x7d' :: rest)))
        rw [List.zipWith_cons_cons, List.intercalate_cons_of_ne_nil hne] at hfuel ⊢
        simp only [member, List.cons_append, List.append_assoc, List.length_cons, List.length_append,
          List.nil_append] at hfuel ⊢
        obtain ⟨fuel, rfl⟩ : ∃ f, fuel = f + 2 := ⟨fuel - 2, by omega⟩
        rw [depthMembers] at hdepth
        have hrest := members?_texts (m :: ms) hnames hvalues
          (fun m hm => hexact m (List.mem_cons_of_mem _ hm)) (List.cons_ne_nil m ms) (fuel + 1) level
          (by omega) (by omega) rest
        exact members?_cons hread (value?_text j hvalue (hexact _ List.mem_cons_self) (by omega) (by omega)
          (by rintro _ ⟨⟩; decide)) hrest

end

/-- **A text is read back as the value.** -/
theorem parse?_text {j : Json} {s : List Char} (h : IsText j s) (hexact : Exact j)
    (hdepth : j.depth < depthLimit) : parse? (String.ofList s) = some j := by
  have hread : value? (2 * s.length + 2) 0 (s ++ []) = some (j, []) :=
    value?_text j h hexact (Nat.le_add_right _ 2) (by rwa [Nat.zero_add]) nofun
  rw [List.append_nil] at hread
  rw [parse?, String.toList_ofList, hread]
  rfl

end ChainIndex.Json
