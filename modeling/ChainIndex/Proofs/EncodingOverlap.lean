import ChainIndex.Decoder
import ChainIndex.Envelope.Decode
import ChainIndex.Proofs.AminoEnvelope
import ChainIndex.Proofs.DecodeOutcome
import ChainIndex.Proofs.UnknownFields

/-!
# Bytes that both encodings accept

An amino transaction starts with its length and a protobuf one with the key of a field, and both are
numbers written in the same way. Whatever a field holds that protobuf does not know is passed over, so
the first number can be both at once (`Ambiguous`). Whether it can is decided by the number alone
(`Shared`): the four bytes of the type that follow it have to fit into the value of a field, which no
group and no end of a group allows.

* `shared_of_ambiguous`, `ambiguous_of_shared`: **these are the numbers that such bytes start with**.
* `decode_encode_refused`: what the encoder writes of a transaction with a body or a fee is no amino.
* `encodings_overlap`: all of it, and that **a decoder with both encodings accepts the same texts on
  every chain**, and finds the same on every chain unless both encodings accept.
-/

namespace ChainIndex

open Wire (Bytes Field Key Layout WireType Scalar nestingLimit)

/-! ## First bytes -/

namespace Wire

theorem Varint.write_append_cons {n : Nat} {xs ys : Bytes} {b : UInt8}
    (h : Varint.write n ++ xs = b :: ys) :
    b < 128 ∧ xs = ys ∨ ¬b < 128 ∧ Varint.write (n / 128) ++ xs = ys := by
  rw [Varint.write] at h
  by_cases hsmall : n < 128
  · rw [if_pos hsmall, List.singleton_append] at h
    obtain ⟨rfl, rfl⟩ := List.cons.inj h
    refine .inl ⟨?_, rfl⟩
    rw [UInt8.lt_iff_toNat_lt, UInt8.toNat_ofNat']
    exact Nat.lt_of_le_of_lt (Nat.mod_le _ _) hsmall
  · rw [if_neg hsmall, List.cons_append] at h
    obtain ⟨rfl, rfl⟩ := List.cons.inj h
    refine .inr ⟨?_, rfl⟩
    rw [UInt8.lt_iff_toNat_lt, UInt8.toNat_ofNat']
    show ¬(n % 128 + 128) % 256 < 128
    omega

theorem Key.write_of_lt {k : Key} (h : 8 * k.tag + k.wireType.code < 128) :
    k.write = [UInt8.ofNat (8 * k.tag + k.wireType.code)] := by
  rw [Key.write, Varint.write, if_pos h]

theorem Field.delimited_of_lt {tag : Nat} (h : 8 * tag + 2 < 128) (body : Bytes) :
    Field.delimited tag body = UInt8.ofNat (8 * tag + 2) :: Scalar.blob.write body := by
  rw [Field.delimited, Key.write_of_lt h]
  rfl

end Wire

/-! ## The standard names -/

namespace Amino

theorem standard_prefixes :
    standardNames.map typePrefix = [[0xc6, 0xc1, 0x02, 0x3f], [0x28, 0x28, 0x16, 0xa9]] := by
  decide +kernel

/-- The bytes that stand for either standard name. -/
theorem typePrefix_of_standard {name : String} (h : name ∈ standardNames) :
    typePrefix name = [0xc6, 0xc1, 0x02, 0x3f] ∨ typePrefix name = [0x28, 0x28, 0x16, 0xa9] := by
  have hmem : typePrefix name ∈ standardNames.map typePrefix := List.mem_map_of_mem h
  simpa [standard_prefixes] using hmem

theorem stripLength_ok {bytes framed : Bytes} (h : stripLength bytes = .ok framed) :
    ∃ n rest, Wire.Varint.read bytes = .ok (n, rest) ∧ n ≤ rest.length ∧ framed = rest.take n := by
  obtain ⟨⟨n, rest⟩, hread, h⟩ := of_bind_ok h
  simp only [bind, Except.bind] at h
  by_cases hshort : rest.length < n
  · rw [if_pos hshort] at h
    cases h
  · rw [if_neg hshort] at h
    exact ⟨n, rest, of_mapError_ok (of_mapError_ok hread), Nat.le_of_not_lt hshort,
      (Except.ok.inj h).symm⟩

/-- What has to go well for amino to accept. -/
theorem decode_ok {bytes : Bytes} {e : Envelope} (h : decode bytes = .ok e) :
    ∃ framed value, stripLength bytes = .ok framed ∧ unpack framed = .ok value ∧
      value.typeTag ∈ standardNames ∧ e.encoding = .amino := by
  obtain ⟨framed, hstrip, hframed⟩ := of_bind_ok h
  obtain ⟨value, hunpack, hvalue⟩ := of_bind_ok hframed
  by_cases hstandard : value.typeTag ∈ standardNames
  · have hknown : ¬(!standardNames.contains value.typeTag) = true := by simpa using hstandard
    rw [if_neg hknown] at hvalue
    obtain ⟨tx, -, htx⟩ := of_bind_ok hvalue
    obtain ⟨messages, -, hmessages⟩ := of_bind_ok htx
    obtain rfl := Except.ok.inj hmessages
    exact ⟨framed, value, hstrip, hunpack, hstandard, rfl⟩
  · simp [hstandard, throw, throwThe, MonadExceptOf.throw, bind, Except.bind] at hvalue

/-- **What amino accepts** is a length and, within that many bytes, those of a standard name. -/
theorem framed_of_decode {bytes : Bytes} {e : Envelope} (h : decode bytes = .ok e) :
    ∃ n name more, name ∈ standardNames ∧ 4 ≤ n ∧
      Wire.Varint.read bytes = .ok (n, typePrefix name ++ more) := by
  obtain ⟨framed, value, hstrip, hunpack, hstandard, -⟩ := decode_ok h
  obtain ⟨n, rest, hread, -, rfl⟩ := stripLength_ok hstrip
  -- there is a type, and so four bytes of the length
  have hlong : prefixLength ≤ (rest.take n).length := by
    by_contra hshort
    rw [unpack_short (Nat.lt_of_not_le hshort)] at hunpack
    cases hunpack
  obtain ⟨m, hm, hholds⟩ := unpack_holds hlong
  obtain rfl : m = value := Except.ok.inj (hm.symm.trans hunpack)
  have hlength : 4 ≤ n := Nat.le_trans hlong (List.length_take_le _ _)
  have hrest := List.take_append_drop n rest
  generalize rest.take n = framed at hholds hrest
  cases hholds with
  | registered hname body =>
    refine ⟨n, _, body ++ rest.drop n, hstandard, hlength, ?_⟩
    rw [hread, ← List.append_assoc, hrest]
  | @unregistered type _ _ body =>
    -- bytes that stand for no name are no standard one
    exact absurd (standard_registered hstandard) (marked_not_registered type)

/-- Under a standard name, fields that amino does not know are an empty transaction, whatever follows. -/
theorem decode_of_skims {name : String} (hname : name ∈ standardNames) {payload : Bytes}
    (hsize : (typePrefix name ++ payload).length < UInt64.size)
    (hpayload : StdTx.layout.Skims nestingLimit payload) (extra : Bytes) :
    decode (Wire.Varint.write (typePrefix name ++ payload).length ++
      (typePrefix name ++ payload ++ extra)) = .ok { encoding := .amino } := by
  have henough : ¬(typePrefix name ++ payload ++ extra).length < (typePrefix name ++ payload).length := by
    simp
  have hstrip : stripLength (Wire.Varint.write (typePrefix name ++ payload).length ++
      (typePrefix name ++ payload ++ extra)) = .ok (typePrefix name ++ payload) := by
    simp only [stripLength, Wire.located, Wire.Varint.read_write hsize, Except.mapError, bind,
      Except.bind, if_neg henough, List.take_left, pure, Except.pure]
  have hunpack : unpack (typePrefix name ++ payload) = .ok { typeTag := name, payload } :=
    unpack_pack (standard_registered hname) payload
  have hstandard : ¬(!standardNames.contains name) = true := by simpa using hname
  simp only [decode, hstrip, hunpack, if_neg hstandard, hpayload.read, Except.mapError, bind,
    Except.bind]
  rfl

end Amino

/-! ## The first field -/

namespace Protobuf

theorem TxRaw.below : TxRaw.layout.Below 4 := by
  simp [TxRaw.layout, Layout.Below, Field.single, Field.repeated]

theorem TxRaw.mem_tag {tag : Nat} (h : tag ∈ [1, 2, 3]) :
    ∃ f, TxRaw.layout.fields.find? (fun f => f.tag == tag) = some f ∧
      f.wireType = .lengthDelimited := by
  simp only [List.mem_cons, List.not_mem_nil, or_false] at h
  rcases h with rfl | rfl | rfl
  all_goals exact ⟨_, rfl, rfl⟩

/-- The fields of a transaction are delimited. -/
theorem delimited_of_mergeField {room : Nat} {k : Key} {a : TxRaw} {bytes : Bytes}
    {r : TxRaw × Bytes} (h : TxRaw.layout.mergeField room k a bytes = .ok r) (htag : k.tag ∈ [1, 2, 3]) :
    k.wireType = .lengthDelimited := by
  obtain ⟨f, hfind, hwire⟩ := TxRaw.mem_tag htag
  by_contra hne
  simp [Layout.mergeField, hfind, hwire, hne, Except.mapError] at h

theorem decode_ok {bytes : Bytes} {e : Envelope} (h : decode bytes = .ok e) :
    (∃ raw, TxRaw.layout.read bytes = .ok raw) ∧ e.encoding = .proto := by
  obtain ⟨raw, hraw, hrest⟩ := of_bind_ok h
  obtain ⟨body, -, hbody⟩ := of_bind_ok hrest
  obtain ⟨auth, -, hauth⟩ := of_bind_ok hbody
  obtain ⟨messages, -, hmessages⟩ := of_bind_ok hauth
  obtain rfl := Except.ok.inj hmessages
  exact ⟨⟨raw, of_mapError_ok hraw⟩, rfl⟩

/-- **What protobuf accepts** starts with a key, and the field under it is taken or passed over. -/
theorem first_field {bytes : Bytes} {e : Envelope} (h : decode bytes = .ok e) (hne : bytes ≠ []) :
    ∃ k rest r, Key.read bytes = .ok (k, rest) ∧
      TxRaw.layout.mergeField nestingLimit k {} rest = .ok r := by
  obtain ⟨⟨raw, hraw⟩, -⟩ := decode_ok h
  exact Layout.first_field hraw hne

/-- Fields that protobuf does not know are an empty transaction. -/
theorem decode_of_skims {bytes : Bytes} (h : TxRaw.layout.Skims nestingLimit bytes) :
    decode bytes = .ok { encoding := .proto } := by
  rw [decode, h.read]
  rfl

end Protobuf

namespace Envelope

/-- Both encodings accept the bytes. -/
def Ambiguous (bytes : Bytes) : Prop :=
  (∃ e, decode bytes .amino = .ok e) ∧ ∃ e, decode bytes .proto = .ok e

/-- The number is the length of an amino transaction, and the key of a field that protobuf takes or passes
over although the field starts as amino transactions do. -/
def Shared (n : Nat) : Prop :=
  n < 2 ^ 32 ∧ (n = 10 ∨ n = 18 ∨ n = 26 ∨
    32 ≤ n ∧ (n % 8 = 0 ∨ n % 8 = 1 ∨ n % 8 = 2 ∨ n % 8 = 5))

/-! ## The first number of what both accept -/

/-- No group starts with the bytes of a standard name. -/
theorem no_group {name : String} (hname : name ∈ Amino.standardNames) (tag : Nat) (more rest : Bytes) :
    Wire.skip nestingLimit ⟨tag, .startGroup⟩ (Amino.typePrefix name ++ more) ≠ .ok rest := by
  rcases Amino.typePrefix_of_standard hname with htype | htype <;> rw [htype] <;> intro h
  · -- the first key has a code that is no wire type
    cases h
  · -- and here the one after a first number
    cases h

/-- A field that protobuf does not know is no group if it starts as an amino transaction does. -/
theorem wireType_of_unknown {name : String} (hname : name ∈ Amino.standardNames) {k : Key}
    {more : Bytes} {r : Protobuf.TxRaw × Bytes} (htag : 4 ≤ k.tag)
    (h : Protobuf.TxRaw.layout.mergeField nestingLimit k {} (Amino.typePrefix name ++ more) = .ok r) :
    k.wireType ≠ .startGroup ∧ k.wireType ≠ .endGroup := by
  rw [Layout.mergeField_unknown (Protobuf.TxRaw.below.unknown htag)] at h
  obtain ⟨tag, w⟩ := k
  refine ⟨?_, ?_⟩ <;> rintro rfl
  · cases hskip : Wire.skip nestingLimit ⟨tag, .startGroup⟩ (Amino.typePrefix name ++ more) with
    | error fault => simp [hskip, Wire.located, Except.mapError, Except.map] at h
    | ok rest => exact no_group hname tag more rest hskip
  · cases h

/-- **The first number** of bytes that both accept is a length and a key at once. -/
theorem shared_of_ambiguous {bytes : Bytes} (h : Ambiguous bytes) :
    ∃ n rest, Wire.Varint.read bytes = .ok (n, rest) ∧ Shared n := by
  obtain ⟨⟨e, hamino⟩, e', hproto⟩ := h
  obtain ⟨n, name, more, hname, hn, hread⟩ := Amino.framed_of_decode hamino
  have hne : bytes ≠ [] := by
    rintro rfl
    cases hread
  obtain ⟨k, rest, r, hkey, hmerge⟩ := Protobuf.first_field hproto hne
  obtain ⟨hnumber, hsize, htag⟩ := Key.read_ok hkey
  obtain ⟨rfl, rfl⟩ : 8 * k.tag + k.wireType.code = n ∧ rest = Amino.typePrefix name ++ more :=
    Prod.mk.inj (Except.ok.inj (hnumber.symm.trans hread))
  refine ⟨_, _, hread, hsize, ?_⟩
  obtain ⟨tag, w⟩ := k
  simp only at htag hn ⊢
  rcases Nat.lt_or_ge tag 4 with hknown | hunknown
  · -- the fields of a transaction are delimited
    have hmem : tag ∈ [1, 2, 3] := by
      simp only [List.mem_cons, List.not_mem_nil, or_false]
      omega
    obtain rfl : w = .lengthDelimited := Protobuf.delimited_of_mergeField hmerge hmem
    simp only [WireType.code]
    omega
  · obtain ⟨hstart, hend⟩ := wireType_of_unknown hname hunknown hmerge
    have hcode : w.code = 0 ∨ w.code = 1 ∨ w.code = 2 ∨ w.code = 5 := by
      cases w <;> simp_all [WireType.code]
    omega

/-! ## Bytes for each such number -/

theorem below_stdTx : Amino.StdTx.layout.Below 5 := by
  simp [Amino.StdTx.layout, Layout.Below, Field.single, Field.repeated, Field.message]

theorem typePrefix_sdk : Amino.typePrefix "cosmos-sdk/StdTx" = [0x28, 0x28, 0x16, 0xa9] := by
  decide +kernel

/-- Both encodings accept a length that is the key of an unknown field if the field ends within the bytes
after it, and all that is left on either side is unknown fields. -/
theorem ambiguous_of_skip {tag : Nat} {w : WireType} {payload more : Bytes} (extra : Bytes) (htag : 4 ≤ tag)
    (hsize : 8 * tag + w.code < 2 ^ 32) (hlength : payload.length + 4 = 8 * tag + w.code)
    (hpayload : Amino.StdTx.layout.Skims nestingLimit payload)
    (hskip : Wire.skip nestingLimit ⟨tag, w⟩ ([0x28, 0x28, 0x16, 0xa9] ++ payload ++ extra) = .ok more)
    (hshort : more.length ≤ ([0x28, 0x28, 0x16, 0xa9] ++ payload ++ extra).length)
    (hmore : Protobuf.TxRaw.layout.Skims nestingLimit more) :
    ∃ bytes rest, Wire.Varint.read bytes = .ok (8 * tag + w.code, rest) ∧ Ambiguous bytes := by
  have hframed : (Amino.typePrefix "cosmos-sdk/StdTx" ++ payload).length = 8 * tag + w.code := by
    rw [List.length_append, Amino.typePrefix_length]
    show 4 + payload.length = _
    omega
  have hsize64 : 8 * tag + w.code < UInt64.size := Nat.lt_trans hsize (by decide)
  have hname : "cosmos-sdk/StdTx" ∈ Amino.standardNames := by decide
  have hamino := Amino.decode_of_skims hname (by rwa [hframed]) hpayload extra
  rw [hframed, typePrefix_sdk] at hamino
  -- the same bytes again, now as a key, the value of its field and other fields
  have hkey : Wire.Tag tag := ⟨by omega, by omega⟩
  have hpos := List.length_pos_iff.2 (Wire.Varint.write_ne_nil (8 * tag + w.code))
  have hless : more.length < (Wire.Varint.write (8 * tag + w.code) ++
      ([0x28, 0x28, 0x16, 0xa9] ++ payload ++ extra)).length := by
    simp only [List.length_append] at hshort ⊢
    omega
  have hproto := Layout.Skims.cons (Key.read_write (k := ⟨tag, w⟩) hkey _)
    (Protobuf.TxRaw.below.unknown htag) hskip hless hmore
  exact ⟨_, _, Wire.Varint.read_write hsize64 _, ⟨_, hamino⟩, _, Protobuf.decode_of_skims hproto⟩

/-- After the first number of the type: another one, and eight bytes under the tag 1925. -/
theorem skims_type {α : Type} {l : Layout α} (hl : l.Below 5) (k : Nat) :
    l.Skims nestingLimit (0x28 :: 0x16 :: 0xa9 :: List.replicate (2 * k + 9) 120) := by
  have hskip : Wire.skip nestingLimit ⟨1925, .sixtyFourBit⟩ (List.replicate (2 * k + 8) 120) =
      .ok (List.replicate (2 * k) 120) := by
    rw [Wire.skip_eq_skipValue (by decide) (by decide), Nat.add_comm,
      ← List.replicate_append_replicate]
    exact Wire.skipBytes_append (List.replicate 8 120) rfl _
  refine .cons (k := ⟨5, .varint⟩) rfl (hl.unknown (by decide)) rfl (by simp) ?_
  have hshort : (List.replicate (2 * k) (120 : UInt8)).length <
      (0xa9 :: List.replicate (2 * k + 9) (120 : UInt8)).length := by
    simp only [List.length_cons, List.length_replicate]
    omega
  exact .cons rfl (hl.unknown (by decide)) hskip hshort (Layout.skims_pairs hl (by decide) k)

/-- The three numbers that are keys of known fields. -/
theorem ambiguous_known {n : Nat} (h : n ∈ [10, 18, 26]) :
    ∃ bytes rest, Wire.Varint.read bytes = .ok (n, rest) ∧ Ambiguous bytes := by
  refine ⟨UInt8.ofNat n :: [0x28, 0x28, 0x16, 0xa9] ++ List.replicate (n + 27) 120,
    [0x28, 0x28, 0x16, 0xa9] ++ List.replicate (n + 27) 120, ?_,
    ⟨{ encoding := .amino }, ?_⟩, { encoding := .proto }, ?_⟩
  all_goals
    simp only [List.mem_cons, List.not_mem_nil, or_false] at h
    rcases h with rfl | rfl | rfl <;> decide +kernel

/-- What follows an even length: the bytes of the type, and numbers on either side of the end. -/
theorem even_bytes (m : Nat) : [0x28, 0x28, 0x16, 0xa9] ++ List.replicate m (120 : UInt8) ++
    List.replicate 31 120 = 0x28 :: 0x28 :: 0x16 :: 0xa9 :: List.replicate (m + 31) 120 := by
  rw [List.append_assoc, List.replicate_append_replicate]
  rfl

/-- The keys of all unknown fields but groups. -/
theorem ambiguous_unknown {tag : Nat} {w : WireType} (htag : 4 ≤ tag)
    (hsize : 8 * tag + w.code < 2 ^ 32) (hstart : w ≠ .startGroup) (hend : w ≠ .endGroup) :
    ∃ bytes rest, Wire.Varint.read bytes = .ok (8 * tag + w.code, rest) ∧ Ambiguous bytes := by
  obtain ⟨t, rfl⟩ : ∃ t, tag = t + 4 := ⟨tag - 4, by omega⟩
  have hlow : Protobuf.TxRaw.layout.Below 5 := fun f hf =>
    Nat.lt_succ_of_lt (Protobuf.TxRaw.below f hf)
  -- an even length leaves room for numbers only, an odd one for four bytes under a tag, too
  have hpairs := Layout.skims_pairs below_stdTx (by decide)
  have hodd := Layout.skims_odd below_stdTx (by decide)
  have hskip : ∀ bytes, Wire.skip nestingLimit ⟨t + 4, w⟩ bytes = Wire.skipValue w bytes :=
    Wire.skip_eq_skipValue (by decide) hstart
  cases w with
  | varint =>
    refine ambiguous_of_skip (List.replicate 31 120) htag hsize ?_ (hpairs (4 * t + 14)) ?_ ?_
      (skims_type hlow (4 * t + 25))
    · rw [List.length_replicate, WireType.code]
      omega
    · have hcount : 2 * (4 * t + 14) + 31 = 2 * (4 * t + 25) + 9 := by omega
      rw [hskip, even_bytes, hcount]
      rfl
    · rw [even_bytes]
      simp only [List.length_cons, List.length_replicate]
      omega
  | lengthDelimited =>
    refine ambiguous_of_skip (List.replicate 31 120) htag hsize ?_ (hpairs (4 * t + 15)) ?_ ?_
      (Layout.skims_pairs hlow (by decide) (4 * t + 12))
    · rw [List.length_replicate, WireType.code]
      omega
    · have hcount : 2 * (4 * t + 15) + 31 = 37 + 2 * (4 * t + 12) := by omega
      rw [hskip, even_bytes, hcount, ← List.replicate_append_replicate]
      exact Wire.skipBytes_append ([0x28, 0x16, 0xa9] ++ List.replicate 37 120) rfl _
    · rw [even_bytes]
      simp only [List.length_cons, List.length_replicate]
      omega
  | sixtyFourBit =>
    refine ambiguous_of_skip [] htag hsize ?_ (hodd (4 * t + 10)) ?_ ?_
      (Layout.skims_word hlow (by decide) (4 * t + 10))
    · simp only [List.length_cons, List.length_replicate, WireType.code]
      omega
    · rw [hskip, List.append_nil]
      exact Wire.skipBytes_append [0x28, 0x28, 0x16, 0xa9, 120, 120, 120, 120] rfl _
    · simp
  | thirtyTwoBit =>
    refine ambiguous_of_skip [] htag hsize ?_ (hodd (4 * t + 12)) ?_ ?_
      (Layout.skims_odd hlow (by decide) (4 * t + 12))
    · simp only [List.length_cons, List.length_replicate, WireType.code]
      omega
    · rw [hskip, List.append_nil]
      exact Wire.skipBytes_append [0x28, 0x28, 0x16, 0xa9] rfl _
    · simp
  | startGroup => exact absurd rfl hstart
  | endGroup => exact absurd rfl hend

/-- **Each such number** starts bytes that both accept. -/
theorem ambiguous_of_shared {n : Nat} (h : Shared n) :
    ∃ bytes rest, Wire.Varint.read bytes = .ok (n, rest) ∧ Ambiguous bytes := by
  obtain ⟨hsize, rfl | rfl | rfl | ⟨hn, hcode⟩⟩ := h
  · exact ambiguous_known (by decide)
  · exact ambiguous_known (by decide)
  · exact ambiguous_known (by decide)
  · obtain ⟨w, hw, hstart, hend⟩ :
        ∃ w : WireType, n % 8 = w.code ∧ w ≠ .startGroup ∧ w ≠ .endGroup := by
      rcases hcode with hcode | hcode | hcode | hcode
      · exact ⟨.varint, hcode, nofun, nofun⟩
      · exact ⟨.sixtyFourBit, hcode, nofun, nofun⟩
      · exact ⟨.lengthDelimited, hcode, nofun, nofun⟩
      · exact ⟨.thirtyTwoBit, hcode, nofun, nofun⟩
    have hkey : 8 * (n / 8) + w.code = n := by omega
    exact hkey ▸ ambiguous_unknown (by omega) (by rwa [hkey]) hstart hend

/-! ## What the encoder writes -/

/-- A length cannot be all of the type: its last byte or its second one is the first after the length. -/
theorem head_of_blob {name : String} (hname : name ∈ Amino.standardNames) {body rest more : Bytes}
    (h : Scalar.blob.write body ++ rest = Amino.typePrefix name ++ more) :
    ∃ b tail, body ++ rest = b :: tail ∧ (b = 0x3f ∨ b = 0x28) := by
  have hwrite : Wire.Varint.write body.length ++ (body ++ rest) = Amino.typePrefix name ++ more := by
    rw [← h, ← List.append_assoc]
    rfl
  -- a byte of a length tells whether it is the last one
  rcases Amino.typePrefix_of_standard hname with htype | htype <;> rw [htype] at hwrite
  · obtain ⟨hsmall, -⟩ | ⟨-, hsecond⟩ := Wire.Varint.write_append_cons hwrite
    · exact absurd hsmall (by decide)
    obtain ⟨hsmall, -⟩ | ⟨-, hthird⟩ := Wire.Varint.write_append_cons hsecond
    · exact absurd hsmall (by decide)
    obtain ⟨-, hbody⟩ | ⟨hlarge, -⟩ := Wire.Varint.write_append_cons hthird
    · exact ⟨_, _, hbody, .inl rfl⟩
    · exact absurd (by decide) hlarge
  · obtain ⟨-, hbody⟩ | ⟨hlarge, -⟩ := Wire.Varint.write_append_cons hwrite
    · exact ⟨_, _, hbody, .inr rfl⟩
    · exact absurd (by decide) hlarge

open Protobuf (TxBody AuthInfo bodyBytes authBytes present)

theorem present_eq {tag : Nat} (h : 8 * tag + 2 < 128) {body : Bytes} (hne : body ≠ []) :
    present tag body = UInt8.ofNat (8 * tag + 2) :: Scalar.blob.write body := by
  rw [present, if_neg (by simpa using hne), Field.delimited_of_lt h]

/-- The fields of a body have the tags one to three. -/
theorem bodyBytes_head {body : TxBody} (h : body ≠ {}) :
    ∃ b tail, bodyBytes body = b :: tail ∧ (b = 10 ∨ b = 18 ∨ b = 24) := by
  obtain ⟨messages, memo, timeoutHeight⟩ := body
  cases messages with
  | cons p ps =>
    refine ⟨10, Scalar.blob.write p.bytes ++ (ps.flatMap fun q => Field.delimited 1 q.bytes) ++
      Protobuf.textBytes 2 memo ++ Protobuf.nonzero 3 timeoutHeight, ?_, .inl rfl⟩
    rw [bodyBytes, List.flatMap_cons, Field.delimited_of_lt (by decide)]
    rfl
  | nil =>
    by_cases hmemo : memo = ""
    · subst hmemo
      have hheight : timeoutHeight ≠ 0 := fun hzero => h (by rw [hzero])
      refine ⟨24, Wire.Varint.write timeoutHeight.toNat, ?_, .inr (.inr rfl)⟩
      show Protobuf.nonzero 3 timeoutHeight = _
      rw [Protobuf.nonzero, if_neg hheight, Key.write_of_lt (by decide)]
      rfl
    · refine ⟨18, Scalar.blob.write (Text.Utf8.encode memo) ++ Protobuf.nonzero 3 timeoutHeight, ?_,
        .inr (.inl rfl)⟩
      show Protobuf.present 2 (Text.Utf8.encode memo) ++ _ = _
      rw [present_eq (by decide) (mt Text.Utf8.encode_eq_nil_iff.1 hmemo)]
      rfl

theorem authBytes_head {auth : AuthInfo} (h : auth ≠ {}) : ∃ tail, authBytes auth = 18 :: tail := by
  obtain ⟨_ | fee⟩ := auth
  · exact absurd rfl h
  · exact ⟨_, Field.delimited_of_lt (by decide) _⟩

/-- **No transaction with a body or a fee is written as amino.** The bytes of the type would be its
length, and the first key of what is in it. -/
theorem decode_encode_refused {body : TxBody} {auth : AuthInfo} (h : body ≠ {} ∨ auth ≠ {})
    (signatures : List Bytes) (e : Envelope) :
    decode (Protobuf.encode body auth signatures) .amino ≠ .ok e := by
  intro haccept
  obtain ⟨n, name, more, hname, -, hread⟩ := Amino.framed_of_decode haccept
  rw [Protobuf.encode_eq] at hread
  by_cases hbody : body = {}
  · -- the signing data comes first
    have hauth : auth ≠ {} := h.resolve_left (not_not_intro hbody)
    obtain ⟨tail, htail⟩ := authBytes_head hauth
    subst hbody
    have hfirst : present 1 (bodyBytes {}) = [] := rfl
    rw [hfirst, List.nil_append, htail, present_eq (by decide) (List.cons_ne_nil _ _)] at hread
    obtain ⟨c, tail', hblob, hc⟩ := head_of_blob hname (Prod.mk.inj (Except.ok.inj hread)).2
    obtain ⟨rfl, -⟩ := List.cons.inj hblob
    exact absurd hc (by decide)
  · -- the body comes first
    obtain ⟨b, tail, htail, hb⟩ := bodyBytes_head hbody
    rw [htail, present_eq (by decide) (List.cons_ne_nil _ _), List.append_assoc, List.cons_append] at hread
    obtain ⟨c, tail', hblob, hc⟩ := head_of_blob hname (Prod.mk.inj (Except.ok.inj hread)).2
    obtain ⟨rfl, -⟩ := List.cons.inj hblob
    rcases hb with rfl | rfl | rfl <;> exact absurd hc (by decide)

end Envelope

namespace Decoder

/-! ## Decoders that try both -/

/-- What a decoder for this generation finds, with the other encoding tried second. -/
def obtained (registry : Registry) (tx : String) (v : ChainVersion) : Option Envelope :=
  (envelope { version := v, fallback := true, registry } tx).toOption

variable {registry : Registry} {tx : String}

theorem obtained_eq (registry : Registry) (tx : String) (v : ChainVersion) :
    obtained registry tx v = (Text.Base64.decode? (Text.trimmed tx)).bind fun bytes =>
      (Envelope.decode bytes v.primary).toOption.or (Envelope.decode bytes v.secondary).toOption := by
  unfold obtained envelope
  cases Text.Base64.decode? (Text.trimmed tx) with
  | none => rfl
  | some bytes =>
    simp only [Option.bind_some]
    cases Envelope.decode bytes v.primary with
    | ok e => rfl
    | error first => cases Envelope.decode bytes v.secondary <;> rfl

/-- Whether anything is found is a matter of the text alone. -/
theorem isSome_obtained (registry : Registry) (tx : String) (v w : ChainVersion) :
    (obtained registry tx v).isSome = (obtained registry tx w).isSome := by
  rw [obtained_eq, obtained_eq]
  cases Text.Base64.decode? (Text.trimmed tx) with
  | none => rfl
  | some bytes =>
    simp only [Option.bind_some, Option.isSome_or]
    cases v <;> cases w <;> first | rfl | exact Bool.or_comm _ _

/-- **Every generation finds the same** unless both encodings accept the bytes. -/
theorem obtained_eq_iff (registry : Registry) (tx : String) :
    (∀ v w, obtained registry tx v = obtained registry tx w) ↔
      ∀ bytes, Text.Base64.decode? (Text.trimmed tx) = some bytes → ¬Envelope.Ambiguous bytes := by
  constructor
  · rintro hsame bytes hbytes ⟨⟨e, hamino⟩, e', hproto⟩
    have heq := hsame .columbus4 .columbus5
    have hfour : obtained registry tx .columbus4 = some e := by
      simp only [obtained_eq, hbytes, Option.bind_some, ChainVersion.primary, hamino]
      rfl
    have hfive : obtained registry tx .columbus5 = some e' := by
      simp only [obtained_eq, hbytes, Option.bind_some, ChainVersion.primary, hproto]
      rfl
    rw [hfour, hfive, Option.some.injEq] at heq
    subst heq
    -- an envelope names the encoding that it was read from
    obtain ⟨-, -, -, -, -, hfirst⟩ := Amino.decode_ok hamino
    obtain ⟨-, hsecond⟩ := Protobuf.decode_ok hproto
    rw [hfirst] at hsecond
    cases hsecond
  · intro hdistinct v w
    rw [obtained_eq, obtained_eq]
    cases hbytes : Text.Base64.decode? (Text.trimmed tx) with
    | none => rfl
    | some bytes =>
      have hnot := hdistinct bytes hbytes
      simp only [Option.bind_some]
      -- at most one of the two is there, so it does not matter which is tried first
      have hcomm : (Envelope.decode bytes .amino).toOption.or (Envelope.decode bytes .proto).toOption =
          (Envelope.decode bytes .proto).toOption.or (Envelope.decode bytes .amino).toOption := by
        cases hamino : Envelope.decode bytes .amino with
        | error _ => exact Option.or_none.symm
        | ok e =>
          cases hproto : Envelope.decode bytes .proto with
          | error _ => rfl
          | ok e' => exact absurd ⟨⟨e, hamino⟩, e', hproto⟩ hnot
      cases v <;> cases w <;> first | rfl | exact hcomm | exact hcomm.symm

end Decoder

namespace Envelope

/-- **Where the encodings overlap.** A decoder that tries both encodings accepts the same texts on every
chain: it finds what the chain's own encoding finds, or else the other one, and so the same on every chain
exactly if not both accept. Bytes that both accept start with a number that is a length and a key at once,
and each such number starts some. The encoder writes none of them for a transaction with a body or a fee. -/
theorem encodings_overlap (registry : Registry) (tx : String) :
    (∀ v w, (Decoder.obtained registry tx v).isSome = (Decoder.obtained registry tx w).isSome) ∧
      (∀ v, Decoder.obtained registry tx v =
        (Text.Base64.decode? (Text.trimmed tx)).bind fun bytes =>
          (decode bytes v.primary).toOption.or (decode bytes v.secondary).toOption) ∧
      ((∀ v w, Decoder.obtained registry tx v = Decoder.obtained registry tx w) ↔
        ∀ bytes, Text.Base64.decode? (Text.trimmed tx) = some bytes → ¬Ambiguous bytes) ∧
      (∀ bytes, Ambiguous bytes → ∃ n rest, Wire.Varint.read bytes = .ok (n, rest) ∧ Shared n) ∧
      (∀ n, (∃ bytes rest, Wire.Varint.read bytes = .ok (n, rest) ∧ Ambiguous bytes) ↔ Shared n) ∧
      ∀ body auth signatures e, body ≠ {} ∨ auth ≠ {} →
        decode (Protobuf.encode body auth signatures) .amino ≠ .ok e := by
  refine ⟨Decoder.isSome_obtained registry tx, Decoder.obtained_eq registry tx,
    Decoder.obtained_eq_iff registry tx, fun bytes => shared_of_ambiguous,
    fun n => ⟨?_, ambiguous_of_shared⟩,
    fun body auth signatures e h => decode_encode_refused h signatures e⟩
  rintro ⟨bytes, rest, hread, hboth⟩
  -- bytes have one first number only
  obtain ⟨n', rest', hread', hshared⟩ := shared_of_ambiguous hboth
  obtain ⟨rfl, -⟩ := Prod.mk.inj (Except.ok.inj (hread.symm.trans hread'))
  exact hshared

/-- A transfer whose bytes protobuf passes over: the field under the length ends within the recipient, and
the next one covers the rest. So the transfer is found on one chain, and nothing on the other. -/
theorem transfer_read_twice :
    let tx := "YigoFqkKP8R2Ar8KFAEBAQEBAQEBAQEBAQEBAQEBAQEBEhQCAgICAgICejcCAgICAgICAgICAhoN" ++
      "CgV1bHVuYRIEMTAwMBITCg0KBXVsdW5hEgQzMDAwEMCaDCIGaGVsbG8h"
    let transfer : Message.Bank.Send :=
      { sender := List.replicate 20 1
        recipient := List.replicate 7 2 ++ [0x7a, 0x37] ++ List.replicate 11 2
        amount := [{ denom := "uluna", amount := "1000" }] }
    let payload := Message.Bank.Send.layout.write transfer
    let fee : List Coin := [{ denom := "uluna", amount := "3000" }]
    let bytes := Amino.encode "cosmos-sdk/StdTx" {
      messages := [Amino.pack "bank/MsgSend" payload]
      fee := some { amount := fee, gas := 200000 }
      memo := "hello!" }
    let found : Envelope :=
      { messages := [{ typeTag := "bank/MsgSend", payload }], memo := "hello!", fee, encoding := .amino }
    Text.Base64.decode? (Text.trimmed tx) = some bytes ∧
      decode bytes .amino = .ok found ∧ decode bytes .proto = .ok { encoding := .proto } ∧
      Decoder.obtained .standard tx .columbus4 = some found ∧
      Decoder.obtained .standard tx .columbus5 = some { encoding := .proto } := by
  decide +kernel

end Envelope

end ChainIndex
