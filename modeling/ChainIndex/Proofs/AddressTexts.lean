import ChainIndex.Address
import ChainIndex.Text.Blank
import Mathlib.Data.Nat.Bitwise
import Mathlib.Tactic.IntervalCases
import Mathlib.Tactic.Ring

/-!
# Addresses are told apart by their text

The text of an address is read back by the rules of the format (`Bech32.decode?`): the last `1` ends the
label, the checksum has to come out as one, and groups of five bits are put together to bytes again. So no
two addresses have the same text, although one label starts like the others.

* `Bech32.flatMap_groups`, `Bech32.bytesOf?_padded`: regrouping loses nothing, and what is filled up is
  dropped again.
* `Bech32.polymod_checksum`: **the checksum of an encoded text comes out as one.** A value that enters the
  checksum is carried upwards five bits at a time, and the last six do not get as far as the bits that are
  reduced.
* `Bech32.decode?_encode`: **what is encoded is read back.**
* `Address.texts_distinct`: **the text of an address determines its bytes and its role.**
-/

namespace ChainIndex

namespace Bech32

/-! ## Bits and groups -/

theorem foldl_ofBits (acc : Nat) (bs : List Bool) :
    bs.foldl (fun acc b => 2 * acc + b.toNat) acc = acc * 2 ^ bs.length + ofBits bs := by
  unfold ofBits
  induction bs generalizing acc with
  | nil => simp
  | cons b bs ih =>
    rw [List.foldl_cons, List.foldl_cons, ih, ih (2 * 0 + b.toNat), List.length_cons, pow_succ]
    ring

theorem ofBits_cons (b : Bool) (bs : List Bool) :
    ofBits (b :: bs) = b.toNat * 2 ^ bs.length + ofBits bs := by
  rw [ofBits, List.foldl_cons, foldl_ofBits, Nat.mul_zero, Nat.zero_add]

theorem length_bits (width n : Nat) : (bits width n).length = width := by
  induction width with
  | zero => rfl
  | succ width ih => rw [bits, List.length_cons, ih]

theorem ofBits_bits (width n : Nat) : ofBits (bits width n) = n % 2 ^ width := by
  induction width with
  | zero => simp [bits, ofBits, Nat.mod_one]
  | succ width ih =>
    rw [bits, ofBits_cons, length_bits, ih, Nat.toNat_testBit, Nat.mod_pow_succ]
    ring

theorem bits_five : ∀ a b c d e : Bool, bits 5 (ofBits [a, b, c, d, e]) = [a, b, c, d, e] := by
  decide

theorem ofBits_five : ∀ a b c d e : Bool, ofBits [a, b, c, d, e] < 32 := by
  decide

/-- **Regrouping loses nothing**: the groups have the bits that they were made of, and less than five
zeros to fill up the last group. -/
theorem flatMap_groups : ∀ bs : List Bool, ∃ pad, pad < 5 ∧
    (groups bs).flatMap (bits 5) = bs ++ List.replicate pad false
  | [] => ⟨0, by decide, rfl⟩
  | [a] => ⟨4, by decide, bits_five a false false false false⟩
  | [a, b] => ⟨3, by decide, bits_five a b false false false⟩
  | [a, b, c] => ⟨2, by decide, bits_five a b c false false⟩
  | [a, b, c, d] => ⟨1, by decide, bits_five a b c d false⟩
  | a :: b :: c :: d :: e :: rest => by
    obtain ⟨pad, hpad, hrest⟩ := flatMap_groups rest
    refine ⟨pad, hpad, ?_⟩
    rw [groups, List.flatMap_cons, bits_five, hrest]
    rfl

theorem lt_of_mem_groups : ∀ {bs : List Bool} {g : Nat}, g ∈ groups bs → g < 32
  | [], _, h => absurd h List.not_mem_nil
  | [a], _, h => List.mem_singleton.1 h ▸ ofBits_five a false false false false
  | [a, b], _, h => List.mem_singleton.1 h ▸ ofBits_five a b false false false
  | [a, b, c], _, h => List.mem_singleton.1 h ▸ ofBits_five a b c false false
  | [a, b, c, d], _, h => List.mem_singleton.1 h ▸ ofBits_five a b c d false
  | a :: b :: c :: d :: e :: rest, g, h => by
    rw [groups] at h
    rcases List.mem_cons.1 h with rfl | h
    · exact ofBits_five a b c d e
    · exact lt_of_mem_groups h

/-- The bits of bytes, highest first. -/
def bitsOf (bytes : List UInt8) : List Bool :=
  bytes.flatMap fun b => bits 8 b.toNat

/-- The bytes of a bit sequence; less than five bits may be left over, and none of them set. -/
def bytesOf? : List Bool → Option (List UInt8)
  | a :: b :: c :: d :: e :: f :: g :: h :: rest =>
    (bytesOf? rest).map (UInt8.ofNat (ofBits [a, b, c, d, e, f, g, h]) :: ·)
  | short => if short.length < 5 && short.all (!·) then some [] else none

theorem bytesOf?_padded (bytes : List UInt8) {pad : Nat} (hpad : pad < 5) :
    bytesOf? (bitsOf bytes ++ List.replicate pad false) = some bytes := by
  induction bytes with
  | nil => interval_cases pad <;> rfl
  | cons b bytes ih =>
    have hbits : bits 8 b.toNat = [b.toNat.testBit 7, b.toNat.testBit 6, b.toNat.testBit 5,
        b.toNat.testBit 4, b.toNat.testBit 3, b.toNat.testBit 2, b.toNat.testBit 1,
        b.toNat.testBit 0] := rfl
    have hvalue := ofBits_bits 8 b.toNat
    have hbyte : b.toNat % 2 ^ 8 = b.toNat := Nat.mod_eq_of_lt b.toNat_lt
    rw [hbyte] at hvalue
    have hparts : bitsOf (b :: bytes) = bits 8 b.toNat ++ bitsOf bytes := rfl
    rw [hparts, List.append_assoc]
    rw [hbits] at hvalue ⊢
    simp only [List.cons_append, List.nil_append, bytesOf?, ih, hvalue, UInt8.ofNat_toNat,
      Option.map_some]

/-! ## The checksum -/

/-- What is reduced depends on the top bits alone. -/
theorem foldl_generators (top : Nat) (gens : List (Nat × Nat)) (acc y : Nat) :
    gens.foldl (fun acc (g, i) => if top.testBit i then acc ^^^ g else acc) (acc ^^^ y) =
      gens.foldl (fun acc (g, i) => if top.testBit i then acc ^^^ g else acc) acc ^^^ y := by
  induction gens generalizing acc with
  | nil => rfl
  | cons p gens ih =>
    obtain ⟨g, i⟩ := p
    simp only [List.foldl_cons]
    cases top.testBit i with
    | true =>
      simp only [if_true]
      rw [Nat.xor_assoc, Nat.xor_comm y g, ← Nat.xor_assoc, ih]
    | false => exact ih acc

/-- A difference that is not among the top bits is only carried on. -/
theorem polymodStep_xor {chk x : Nat} (hx : x < 2 ^ 25) (v : Nat) :
    polymodStep (chk ^^^ x) v = polymodStep chk 0 ^^^ (x <<< 5 ^^^ v) := by
  have htop : (chk ^^^ x) >>> 25 = chk >>> 25 := by
    rw [Nat.shiftRight_xor_distrib, Nat.shiftRight_eq_zero x 25 hx, Nat.xor_zero]
  have hlow : x &&& 0x1ffffff = x := by
    have hmask := Nat.and_two_pow_sub_one_eq_mod x 25
    rwa [Nat.mod_eq_of_lt hx] at hmask
  have hcarried : ((chk ^^^ x) &&& 0x1ffffff) <<< 5 ^^^ v =
      ((chk &&& 0x1ffffff) <<< 5 ^^^ 0) ^^^ (x <<< 5 ^^^ v) := by
    rw [Nat.and_xor_distrib_right, hlow, Nat.shiftLeft_xor_distrib, Nat.xor_zero, Nat.xor_assoc]
  unfold polymodStep
  rw [htop, hcarried]
  exact foldl_generators _ _ _ _

theorem foldl_generators_lt (top : Nat) {gens : List (Nat × Nat)} (hgens : ∀ p ∈ gens, p.1 < 2 ^ 30)
    {acc : Nat} (hacc : acc < 2 ^ 30) :
    gens.foldl (fun acc (g, i) => if top.testBit i then acc ^^^ g else acc) acc < 2 ^ 30 := by
  induction gens generalizing acc with
  | nil => exact hacc
  | cons p gens ih =>
    obtain ⟨hp, hrest⟩ := List.forall_mem_cons.1 hgens
    obtain ⟨g, i⟩ := p
    simp only [List.foldl_cons]
    cases top.testBit i with
    | true => exact ih hrest (Nat.xor_lt_two_pow hacc hp)
    | false => exact ih hrest hacc

theorem polymodStep_zero_lt (chk : Nat) : polymodStep chk 0 < 2 ^ 30 := by
  have hlow : chk &&& 0x1ffffff < 2 ^ 25 := Nat.and_lt_two_pow chk (by decide)
  have hshifted : (chk &&& 0x1ffffff) <<< 5 < 2 ^ 30 := Nat.shiftLeft_lt hlow
  unfold polymodStep
  refine foldl_generators_lt _ (by decide) ?_
  rwa [Nat.xor_zero]

theorem xor_shifted (n : Nat) : (n >>> 5) <<< 5 ^^^ (n &&& 31) = n := by
  refine Nat.eq_of_testBit_eq fun i => ?_
  have hmask : (31 : Nat).testBit i = decide (i < 5) := Nat.testBit_two_pow_sub_one 5 i
  rw [Nat.testBit_xor, Nat.testBit_and, hmask, Nat.testBit_shiftLeft, Nat.testBit_shiftRight]
  by_cases hi : i < 5
  · have hge : ¬5 ≤ i := by omega
    simp [hi, hge]
  · have hge : 5 ≤ i := by omega
    simp [hi, hge]

/-- The groups of a number of thirty bits make it up again when they enter the checksum after each
other. -/
theorem foldl_checked {m : Nat} (hm : m < 2 ^ 30) (chk : Nat) {k : Nat} (hk : k ≤ 6) :
    ((List.range k).map fun i => (m >>> (5 * (5 - i))) &&& 31).foldl polymodStep chk =
      (List.replicate k 0).foldl polymodStep chk ^^^ (m >>> (5 * (6 - k))) := by
  induction k with
  | zero =>
    have hnone : m >>> 30 = 0 := Nat.shiftRight_eq_zero m 30 hm
    show chk = chk ^^^ m >>> 30
    rw [hnone, Nat.xor_zero]
  | succ k ih =>
    -- so far no more than 25 bits have come in
    have hless : m >>> (5 * (6 - k)) < 2 ^ 25 := by
      have hshift : m >>> (5 * (6 - k)) ≤ m >>> 5 := by
        rw [Nat.shiftRight_eq_div_pow, Nat.shiftRight_eq_div_pow]
        exact Nat.div_le_div_left (Nat.pow_le_pow_right (by decide) (by omega)) (by decide)
      have htop : m >>> 5 < 2 ^ 25 := by
        rw [Nat.shiftRight_eq_div_pow]
        omega
      omega
    have hnext : m >>> (5 * (6 - k)) = (m >>> (5 * (5 - k))) >>> 5 := by
      rw [← Nat.shiftRight_add]
      congr 1
      omega
    have hlast : 6 - (k + 1) = 5 - k := by omega
    rw [List.range_succ, List.map_append, List.foldl_append, ih (by omega), List.replicate_succ',
      List.foldl_append, hlast]
    simp only [List.map_cons, List.map_nil, List.foldl_cons, List.foldl_nil]
    rw [polymodStep_xor hless, hnext, xor_shifted]

theorem polymod_append (xs ys : List Nat) : polymod (xs ++ ys) = ys.foldl polymodStep (polymod xs) := by
  rw [polymod, List.foldl_append]
  rfl

/-- **The checksum of an encoded text comes out as one.** -/
theorem polymod_checksum (hrp : List Char) (data : List Nat) :
    polymod (expand hrp ++ data ++ checksum hrp data) = 1 := by
  let plain := polymod (expand hrp ++ data ++ List.replicate 6 0)
  have hplain : plain = (List.replicate 6 0).foldl polymodStep (polymod (expand hrp ++ data)) :=
    polymod_append _ _
  have hless : plain < 2 ^ 30 := by
    rw [hplain]
    exact polymodStep_zero_lt _
  have hm : plain ^^^ 1 < 2 ^ 30 := Nat.xor_lt_two_pow hless (by decide)
  have hchecked := foldl_checked hm (polymod (expand hrp ++ data)) (Nat.le_refl 6)
  rw [← hplain] at hchecked
  calc polymod (expand hrp ++ data ++ checksum hrp data)
      = (checksum hrp data).foldl polymodStep (polymod (expand hrp ++ data)) := polymod_append _ _
    _ = plain ^^^ (plain ^^^ 1) := hchecked
    _ = 1 := by rw [← Nat.xor_assoc, Nat.xor_self, Nat.zero_xor]

theorem length_checksum (hrp : List Char) (data : List Nat) : (checksum hrp data).length = 6 := by
  rw [checksum, List.length_map, List.length_range]

theorem lt_of_mem_checksum {hrp : List Char} {data : List Nat} {g : Nat}
    (h : g ∈ checksum hrp data) : g < 32 := by
  obtain ⟨i, -, rfl⟩ := List.mem_map.1 h
  exact Nat.and_lt_two_pow _ (by decide : 31 < 2 ^ 5)

/-! ## Reading -/

/-- The group that a character stands for. -/
def group? (c : Char) : Option Nat :=
  alphabet.idxOf? c

/-- A label has 1 to 83 visible ASCII characters. -/
def isLabel (hrp : List Char) : Bool :=
  0 < hrp.length && hrp.length ≤ 83 && hrp.all fun c => 33 ≤ c.toNat && c.toNat ≤ 126

/-- The label in front of the last `1`, and the groups behind it. -/
def parts? (chars : List Char) : Option (List Char × List Nat) :=
  let behind := Text.afterLast (· == '1') chars
  (behind.mapM group?).map (chars.take (chars.length - behind.length - 1), ·)

/-- The label and the bytes that groups stand for: at least six groups, with which the checksum comes out
as one, and all before the last six are whole bytes with less than five zeros behind them. -/
def ofGroups? (hrp : List Char) (values : List Nat) : Option (String × List UInt8) :=
  if isLabel hrp && 6 ≤ values.length && polymod (expand hrp ++ values) == 1 then
    (bytesOf? ((values.take (values.length - 6)).flatMap (bits 5))).map (String.ofList hrp, ·)
  else none

/-- The label and the bytes that a text writes, in one case throughout. There is no limit on its length. -/
def decode? (text : String) : Option (String × List UInt8) :=
  let chars := text.toList
  if chars.any Char.isUpper && chars.any Char.isLower then none
  else (parts? (chars.map Char.toLower)).bind fun (hrp, values) => ofGroups? hrp values

theorem group?_symbol {g : Nat} (h : g < 32) : group? (symbol g) = some g := by
  have hall : ∀ g ∈ List.range 32, group? (symbol g) = some g := by decide
  exact hall g (List.mem_range.2 h)

/-- A symbol is no separator, and has no upper case. -/
theorem symbol_plain {g : Nat} (h : g < 32) : symbol g ≠ '1' ∧ (symbol g).isUpper = false := by
  have hall : ∀ g ∈ List.range 32, symbol g ≠ '1' ∧ (symbol g).isUpper = false := by decide
  exact hall g (List.mem_range.2 h)

theorem mapM_group? {values : List Nat} (h : ∀ g ∈ values, g < 32) :
    (values.map symbol).mapM group? = some values := by
  induction values with
  | nil => rfl
  | cons g values ih =>
    obtain ⟨hg, hvalues⟩ := List.forall_mem_cons.1 h
    rw [List.map_cons, List.mapM_cons, group?_symbol hg, ih hvalues]
    rfl

end Bech32

theorem Text.afterLast_append {sep : Char → Bool} {a b : List Char} {c : Char} (hc : sep c = true)
    (hb : ∀ x ∈ b, sep x = false) : Text.afterLast sep (a ++ c :: b) = b := by
  have hbehind : ∀ x ∈ b.reverse, (!sep x) = true := by
    intro x hx
    simp [hb x (List.mem_reverse.1 hx)]
  have hstop : (c :: a.reverse).takeWhile (fun x => !sep x) = [] := by simp [hc]
  rw [Text.afterLast, List.reverse_append, List.reverse_cons, List.append_assoc,
    List.takeWhile_append_of_pos hbehind, List.singleton_append, hstop, List.append_nil,
    List.reverse_reverse]

namespace Bech32

variable {hrp : String} {bytes : List UInt8}

/-- The groups of a text: those of the bytes, and the check groups. -/
def values (hrp : String) (bytes : List UInt8) : List Nat :=
  regroup bytes ++ checksum hrp.toList (regroup bytes)

theorem toList_encode (hrp : String) (bytes : List UInt8) :
    (encode hrp bytes).toList = hrp.toList ++ '1' :: (values hrp bytes).map symbol := by
  rw [encode, String.toList_ofList]
  rfl

theorem lt_of_mem_values {g : Nat} (h : g ∈ values hrp bytes) : g < 32 := by
  rcases List.mem_append.1 h with h | h
  · exact lt_of_mem_groups h
  · exact lt_of_mem_checksum h

theorem not_isUpper_of_mem (hlower : ∀ c ∈ hrp.toList, c.isUpper = false) {c : Char}
    (h : c ∈ (encode hrp bytes).toList) : c.isUpper = false := by
  rw [toList_encode] at h
  rcases List.mem_append.1 h with h | h
  · exact hlower c h
  · rcases List.mem_cons.1 h with rfl | h
    · decide
    · obtain ⟨g, hg, rfl⟩ := List.mem_map.1 h
      exact (symbol_plain (lt_of_mem_values hg)).2

theorem parts?_encode (hrp : String) (bytes : List UInt8) :
    parts? (encode hrp bytes).toList = some (hrp.toList, values hrp bytes) := by
  have hbehind : Text.afterLast (· == '1') (encode hrp bytes).toList = (values hrp bytes).map symbol := by
    rw [toList_encode]
    refine Text.afterLast_append rfl fun c hc => ?_
    obtain ⟨g, hg, rfl⟩ := List.mem_map.1 hc
    exact beq_false_of_ne (symbol_plain (lt_of_mem_values hg)).1
  have hfront : (encode hrp bytes).toList.take ((encode hrp bytes).toList.length -
      ((values hrp bytes).map symbol).length - 1) = hrp.toList := by
    rw [toList_encode]
    refine List.take_left' ?_
    rw [List.length_append, List.length_cons]
    omega
  rw [parts?, hbehind, hfront, mapM_group? fun _ => lt_of_mem_values, Option.map_some]

theorem ofGroups?_values (hlabel : isLabel hrp.toList = true) (bytes : List UInt8) :
    ofGroups? hrp.toList (values hrp bytes) = some (hrp, bytes) := by
  have hlength : (values hrp bytes).length = (regroup bytes).length + 6 := by
    rw [values, List.length_append, length_checksum]
  have hdata : (values hrp bytes).take ((values hrp bytes).length - 6) = regroup bytes := by
    rw [hlength, Nat.add_sub_cancel]
    exact List.take_left
  have hsum : polymod (expand hrp.toList ++ values hrp bytes) = 1 := by
    rw [values, ← List.append_assoc]
    exact polymod_checksum _ _
  obtain ⟨pad, hpad, hbits⟩ := flatMap_groups (bitsOf bytes)
  have hbytes : bytesOf? ((regroup bytes).flatMap (bits 5)) = some bytes := by
    have hgroups : regroup bytes = groups (bitsOf bytes) := rfl
    rw [hgroups, hbits]
    exact bytesOf?_padded bytes hpad
  have hmany : 6 ≤ (values hrp bytes).length := by omega
  rw [ofGroups?, hdata, hbytes]
  simp [hlabel, hmany, hsum]

/-- **What is encoded is read back**, under any label without upper case. -/
theorem decode?_encode (hlabel : isLabel hrp.toList = true)
    (hlower : ∀ c ∈ hrp.toList, c.isUpper = false) (bytes : List UInt8) :
    decode? (encode hrp bytes) = some (hrp, bytes) := by
  have hcase : (encode hrp bytes).toList.any Char.isUpper = false := by
    rw [List.any_eq_false]
    intro c hc
    simp [not_isUpper_of_mem hlower hc]
  have hsame : (encode hrp bytes).toList.map Char.toLower = (encode hrp bytes).toList := by
    have hchar : ∀ c ∈ (encode hrp bytes).toList, c.toLower = c := by
      intro c hc
      have hupper := not_isUpper_of_mem hlower hc
      exact dif_neg (of_decide_eq_false hupper)
    rw [List.map_congr_left hchar]
    exact List.map_id _
  have hone : ¬((encode hrp bytes).toList.any Char.isUpper &&
      (encode hrp bytes).toList.any Char.isLower) = true := by
    simp [hcase]
  simp only [decode?]
  rw [if_neg hone, hsame, parts?_encode, Option.bind_some]
  exact ofGroups?_values hlabel bytes

end Bech32

/-! ## Addresses -/

theorem Role.isLabel_label (r : Role) : Bech32.isLabel r.label.toList = true := by
  cases r <;> decide

theorem Role.not_isUpper_label (r : Role) : ∀ c ∈ r.label.toList, c.isUpper = false := by
  cases r <;> simp [Role.label]

theorem Role.label_injective {r s : Role} (h : r.label = s.label) : r = s := by
  revert h
  cases r <;> cases s <;> decide

namespace Address

theorem encode_of_ne_nil {bytes : List UInt8} (h : bytes ≠ []) (r : Role) :
    encode bytes r = Bech32.encode r.label bytes := by
  simp [encode, h]

theorem decode?_encode {bytes : List UInt8} (h : bytes ≠ []) (r : Role) :
    Bech32.decode? (encode bytes r) = some (r.label, bytes) := by
  rw [encode_of_ne_nil h]
  exact Bech32.decode?_encode r.isLabel_label r.not_isUpper_label bytes

/-- **The text of an address determines its bytes and its role.** Any bytes but none have a text under any
role: the label of the role, a `1`, the groups of five bits that the bytes and less than five zeros make
up, and six more groups with which the checksum comes out as one. So the text is read back as just this
label and these bytes, and no other bytes, and no other role, have the same text. -/
theorem texts_distinct (bytes : List UInt8) (r : Role) (h : bytes ≠ []) :
    normalize bytes r .amino = .ok (encode bytes r) ∧
    (∃ data check : List Nat, ∃ pad : Nat,
      (encode bytes r).toList = r.label.toList ++ '1' :: (data ++ check).map Bech32.symbol ∧
      (∀ g ∈ data ++ check, g < 32) ∧
      pad < 5 ∧ data.flatMap (Bech32.bits 5) = Bech32.bitsOf bytes ++ List.replicate pad false ∧
      check.length = 6 ∧ Bech32.polymod (Bech32.expand r.label.toList ++ (data ++ check)) = 1) ∧
    Bech32.decode? (encode bytes r) = some (r.label, bytes) ∧
    ∀ (others : List UInt8) (s : Role), encode bytes r = encode others s → bytes = others ∧ r = s := by
  refine ⟨rfl, ?_, decode?_encode h r, fun others s hsame => ?_⟩
  · obtain ⟨pad, hpad, hbits⟩ := Bech32.flatMap_groups (Bech32.bitsOf bytes)
    refine ⟨Bech32.regroup bytes, Bech32.checksum r.label.toList (Bech32.regroup bytes), pad, ?_,
      fun g => Bech32.lt_of_mem_values, hpad, hbits, Bech32.length_checksum _ _, ?_⟩
    · rw [encode_of_ne_nil h]
      exact Bech32.toList_encode r.label bytes
    · rw [← List.append_assoc]
      exact Bech32.polymod_checksum _ _
  · have hread := decode?_encode h r
    rw [hsame] at hread
    by_cases hothers : others = []
    · -- no bytes have the empty text, which no label starts
      rw [hothers] at hread
      cases hread
    · rw [decode?_encode hothers] at hread
      obtain ⟨hlabel, hbytes⟩ := Prod.mk.inj (Option.some.inj hread)
      exact ⟨hbytes.symm, (Role.label_injective hlabel).symm⟩

/-- Two bytes need four groups with four zeros, and are read back from them. -/
theorem texts_distinct_two : ([1, 2] : List UInt8) ≠ [] ∧
    encode [1, 2] .account = "terra1qypqmklumy" ∧
    Bech32.decode? "terra1qypqmklumy" = some ("terra", [1, 2]) ∧
    ∀ (others : List UInt8) (s : Role), "terra1qypqmklumy" = encode others s →
      [1, 2] = others ∧ .account = s := by
  have hne : ([1, 2] : List UInt8) ≠ [] := by decide
  have htext : encode [1, 2] .account = "terra1qypqmklumy" := by decide +kernel
  obtain ⟨-, -, hread, hdistinct⟩ := texts_distinct [1, 2] .account hne
  rw [htext] at hread hdistinct
  exact ⟨hne, htext, hread, hdistinct⟩

end Address

end ChainIndex
