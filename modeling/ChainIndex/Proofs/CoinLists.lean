import ChainIndex.Envelope.Basic
import ChainIndex.Proofs.CoinTokens

/-!
# Lists of coins are read back

In a list of coins the comma stands between two coins, although it may also separate the fraction of an
amount, and a digit may belong to an amount or to a denomination. A list is unambiguous all the same if its
amounts are written with points and no denomination has a comma, or starts like an amount (`Coin.Plain`):
then each amount ends where its denomination starts.

* `Text.fields_intercalate`: what is joined by a character is cut there again.
* `Coin.Plain.parseCoin`: one coin is read as its amount and its denomination.
* `Amount.parseList_listed`: **a list of coins is read as these coins, in their order.**
-/

namespace ChainIndex

theorem Text.fields_intercalate {sep : Char} {parts : List (List Char)} (hne : parts ≠ [])
    (h : ∀ part ∈ parts, sep ∉ part) :
    Text.fields (· == sep) ([sep].intercalate parts) = parts := by
  have hclean : ∀ part ∈ parts, ∀ c ∈ part, (c == sep) = false := by
    intro part hpart c hc
    rw [beq_eq_false_iff_ne]
    rintro rfl
    exact h part hpart hc
  clear h
  induction parts with
  | nil => exact absurd rfl hne
  | cons part rest ih =>
    obtain ⟨hpart, hrest⟩ := List.forall_mem_cons.1 hclean
    cases rest with
    | nil => rw [List.intercalate_singleton, Text.fields_eq_singleton hpart]
    | cons next rest =>
      rw [List.intercalate_cons_cons, List.append_assoc, List.singleton_append,
        Text.fields_append_cons hpart (beq_self_eq_true sep), ih (List.cons_ne_nil _ _) hrest]

/-- The text of a coin: the amount, and the denomination right behind it. -/
def Coin.token (c : Coin) : String :=
  c.amount ++ c.denom

/-- The texts of coins, with commas between them. -/
def Coin.listed (coins : List Coin) : String :=
  ",".intercalate (coins.map Coin.token)

open Amount (Decimal)

/-- The amount is a decimal, of less than two gigabytes, in which no comma stands for the point. The
denomination is not empty, has neither blanks nor commas, and does not start with a digit, a point or a
minus sign. -/
structure Coin.Plain (c : Coin) : Prop where
  decimal : ∃ d : Decimal, c.amount = String.ofList d.chars ∧ ∀ m ∈ d.mark, m = '.'
  short : c.amount.utf8ByteSize < 2 ^ 31
  starts : ∃ x rest, c.denom.toList = x :: rest ∧ x.isDigit = false ∧ x ≠ '.' ∧ x ≠ '-'
  unblank : ∀ x ∈ c.denom.toList, Text.isBlank x = false
  noComma : ',' ∉ c.denom.toList

namespace Coin.Plain

variable {c : Coin} {d : Decimal}

theorem isDenomination (h : c.Plain) : Amount.IsDenomination c.denom.toList := by
  obtain ⟨x, rest, hdenom, hdigit, -⟩ := h.starts
  exact ⟨⟨x, rest, hdenom, hdigit⟩, h.unblank⟩

/-- No amount goes on into the denomination. -/
theorem not_mark_head (h : c.Plain) {x : Char} {rest : List Char} (hdenom : c.denom.toList = x :: rest) :
    Amount.isNumericMark x = false := by
  obtain ⟨y, rest', hstarts, hdigit, hpoint, hminus⟩ := h.starts
  rw [hdenom] at hstarts
  obtain ⟨rfl, -⟩ := List.cons.inj hstarts
  have hcomma : x ≠ ',' := by
    rintro rfl
    exact h.noComma (hdenom ▸ List.mem_cons_self)
  simp [Amount.isNumericMark, Amount.isSeparator, hdigit, hpoint, hminus, hcomma]

theorem toList_token (hd : c.amount = String.ofList d.chars) :
    c.token.toList = d.chars ++ c.denom.toList := by
  rw [Coin.token, String.toList_append, hd, String.toList_ofList]

theorem unblank_token (h : c.Plain) {x : Char} (hx : x ∈ c.token.toList) : Text.isBlank x = false := by
  obtain ⟨d, hd, -⟩ := h.decimal
  rw [toList_token hd] at hx
  rcases List.mem_append.1 hx with hx | hx
  · exact Decimal.isBlank_of_mem hx
  · exact h.unblank x hx

theorem token_ne_nil (h : c.Plain) : c.token.toList ≠ [] := by
  obtain ⟨d, hd, -⟩ := h.decimal
  rw [toList_token hd]
  exact List.append_ne_nil_of_left_ne_nil d.chars_ne_nil _

theorem noComma_token (h : c.Plain) : ',' ∉ c.token.toList := by
  obtain ⟨d, hd, hpoint⟩ := h.decimal
  rw [toList_token hd, List.mem_append, not_or]
  refine ⟨fun hcomma => ?_, h.noComma⟩
  rw [Decimal.chars_eq, List.mem_append, List.mem_append, Option.mem_toList] at hcomma
  rcases hcomma with hfront | hmark | hfraction
  · have hdigit := (Decimal.mem_front hfront).resolve_left (by decide)
    exact absurd hdigit (by decide)
  · exact absurd (hpoint ',' hmark) (by decide)
  · exact absurd (d.isDigit_fraction hfraction) (by decide)

theorem divides (h : c.Plain) (hd : c.amount = String.ofList d.chars) :
    Amount.Divides c.token.toList d.chars c.denom.toList :=
  ⟨d.chars_ne_nil, fun _ => Decimal.isNumericMark_of_mem, ⟨[], toList_token hd, List.forall_mem_nil _⟩,
    h.isDenomination⟩

/-- No other division has a longer amount. -/
theorem longest (h : c.Plain) (hd : c.amount = String.ofList d.chars) {amount denom : List Char}
    (hdivides : Amount.Divides c.token.toList amount denom) : amount.length ≤ d.chars.length := by
  obtain ⟨blanks, htext, -⟩ := hdivides.parts
  rw [toList_token hd] at htext
  rcases List.append_eq_append_iff.1 htext with ⟨more, hamount, hmore⟩ | ⟨more, hchars, -⟩
  · -- a longer amount would have the first character of the denomination
    cases more with
    | nil => simp [hamount]
    | cons x more =>
      have hmark := hdivides.marks x (by simp [hamount])
      rw [h.not_mark_head hmore] at hmark
      cases hmark
  · simp [hchars]

/-- **A coin is read as its amount and its denomination.** -/
theorem parseCoin (h : c.Plain) (hd : c.amount = String.ofList d.chars) :
    Amount.parseCoin c.token = .ok
      { text := c.amount, numeric := d.numeric, exp := Int32.ofNat d.places, currency := c.denom } := by
  have htrim : Text.trim c.token.toList = c.token.toList := Text.trim_eq_self fun _ => h.unblank_token
  have hsplit : Amount.split c.token = .ok (String.ofList d.chars, String.ofList c.denom.toList) := by
    refine Amount.split_of_divides ?_ ?_
    · rw [htrim]
      exact h.divides hd
    · intro amount denom hdivides
      rw [htrim] at hdivides
      exact h.longest hd hdivides
  rw [Amount.parseCoin_of_split hsplit,
    Amount.parse_of_read (Amount.parseDecimal_written d.written_ofList), d.trimmed_ofList, hd,
    String.ofList_toList]

end Coin.Plain

namespace Amount

/-- An amount is what a coin says. -/
structure Reads (c : Coin) (a : Amount) : Prop where
  text : a.text = c.amount
  currency : a.currency = c.denom
  read : parseDecimal c.amount = .ok (a.numeric, a.exp)
  value : ∃ d : Decimal, c.amount = String.ofList d.chars ∧ a.numeric = d.numeric ∧
    a.exp.toInt = d.places

theorem exists_reads {c : Coin} (h : c.Plain) : ∃ a, parseCoin c.token = .ok a ∧ Reads c a := by
  obtain ⟨d, hd, -⟩ := h.decimal
  have hwritten : d.WrittenIn c.amount := by
    rw [hd]
    exact d.written_ofList
  exact ⟨_, h.parseCoin hd, rfl, rfl, parseDecimal_written hwritten, d, hd, rfl,
    hwritten.toInt_places h.short⟩

theorem mapM_parseCoin {coins : List Coin} (h : ∀ c ∈ coins, c.Plain) :
    ∃ amounts, (coins.map fun c => c.token.toList).mapM (fun part => parseCoin (String.ofList part)) =
      .ok amounts ∧ List.Forall₂ Reads coins amounts := by
  induction coins with
  | nil => exact ⟨[], rfl, .nil⟩
  | cons c coins ih =>
    obtain ⟨hc, hcoins⟩ := List.forall_mem_cons.1 h
    obtain ⟨a, hparse, hreads⟩ := exists_reads hc
    obtain ⟨amounts, hamounts, hall⟩ := ih hcoins
    refine ⟨a :: amounts, ?_, .cons hreads hall⟩
    rw [List.map_cons, List.mapM_cons, String.ofList_toList, hparse, hamounts]
    rfl

/-- The parts of a list are the coins that it was made of. -/
theorem parts_listed {coins : List Coin} (h : ∀ c ∈ coins, c.Plain) :
    (Text.fields (· == ',') (Coin.listed coins).toList).filter (fun part => !part.all Text.isBlank) =
      coins.map fun c => c.token.toList := by
  have htext : (Coin.listed coins).toList = [','].intercalate (coins.map fun c => c.token.toList) := by
    rw [Coin.listed, String.toList_intercalate, List.map_map]
    rfl
  cases coins with
  | nil => rfl
  | cons c coins =>
    have hne : (c :: coins).map (fun c => c.token.toList) ≠ [] := List.cons_ne_nil _ _
    rw [htext, Text.fields_intercalate hne, List.filter_eq_self]
    · intro part hpart
      obtain ⟨c, hc, rfl⟩ := List.mem_map.1 hpart
      obtain ⟨x, rest, hx⟩ := List.exists_cons_of_ne_nil (h c hc).token_ne_nil
      have hblank : Text.isBlank x = false := (h c hc).unblank_token (hx ▸ List.mem_cons_self)
      simp [hx, hblank]
    · intro part hpart
      obtain ⟨c, hc, rfl⟩ := List.mem_map.1 hpart
      exact (h c hc).noComma_token

/-- **A list of coins is read back.** The texts of plain coins with commas between them are read as exactly
these coins in their order: each with its amount as the text, its denomination as the currency, and the
mantissa and exponent that its amount is read as by itself. -/
theorem parseList_listed (coins : List Coin) (h : ∀ c ∈ coins, c.Plain) :
    ∃ amounts, parseList (Coin.listed coins) = .ok amounts ∧ List.Forall₂ Reads coins amounts := by
  obtain ⟨amounts, hamounts, hreads⟩ := mapM_parseCoin h
  refine ⟨amounts, ?_, hreads⟩
  rw [parseList, parts_listed h, hamounts]

/-- Digits in a denomination are none of an amount, and an amount may have no digit before its point. -/
theorem parseList_listed_two :
    let coins : List Coin := [{ amount := "12.50", denom := "ibc/27394FB0" },
      { amount := "-.5", denom := "uluna" }]
    (∀ c ∈ coins, c.Plain) ∧ Coin.listed coins = "12.50ibc/27394FB0,-.5uluna" ∧
      ∃ amounts, parseList "12.50ibc/27394FB0,-.5uluna" = .ok amounts ∧
        List.Forall₂ Reads coins amounts := by
  intro coins
  let twelve : Decimal :=
    ⟨false, ['1', '2'], some '.', ['5', '0'], by simp, by simp, by simp [isSeparator], nofun⟩
  let half : Decimal := ⟨true, [], some '.', ['5'], by simp, by simp, by simp [isSeparator], nofun⟩
  have hplain : ∀ c ∈ coins, c.Plain := by
    refine List.forall_mem_cons.2 ⟨?_, List.forall_mem_singleton.2 ?_⟩
    · exact ⟨⟨twelve, rfl, by simp [twelve]⟩, by decide, ⟨'i', _, rfl, by decide⟩,
        by simp [Text.isBlank], by simp⟩
    · exact ⟨⟨half, rfl, by simp [half]⟩, by decide, ⟨'u', _, rfl, by decide⟩,
        by simp [Text.isBlank], by simp⟩
  exact ⟨hplain, rfl, parseList_listed coins hplain⟩

end Amount

end ChainIndex
