import ChainIndex.Proofs.ProtobufEnvelope
import ChainIndex.Proofs.RegisteredNames

/-!
# Amino envelopes are read back

A transaction is a length, the bytes that stand for a standard name, and the fields of the transaction
(`txBytes`). Its messages are values of open types themselves. Which message a value holds is said by
`Holds`: a registered type goes by its name, and any other one by its bytes in hexadecimal, under a mark
that no registered name has. So the message gives the value back (`repack`).

* `unpack_holds`, `repack_of_holds`: values of at least four bytes are unpacked without any loss.
* `mapM_unpack`, `mapM_unpack_short`: all messages are unpacked, or one is too short.
* `stdTx_round_trip`: **decoding an encoded transaction gives its messages, memo and fee**, and no two
  values give the same message.
-/

namespace ChainIndex

open Wire (Bytes Field Scalar)

namespace Text.Hex

theorem value?_digit {n : Nat} (h : n < 16) : value? (digit n) = some n := by
  have hall : ∀ n ∈ List.range 16, value? (digit n) = some n := by decide
  exact hall n (List.mem_range.2 h)

theorem decodeList?_ofByte (b : UInt8) (rest : List Char) :
    decodeList? (ofByte b ++ rest) = (decodeList? rest).map (b :: ·) := by
  have hlt : b.toNat < 256 := b.toNat_lt
  have hbyte : 16 * (b.toNat / 16) + b.toNat % 16 = b.toNat := by omega
  simp only [ofByte, List.cons_append, List.nil_append, decodeList?,
    value?_digit (show b.toNat / 16 < 16 by omega), value?_digit (show b.toNat % 16 < 16 by omega),
    bind, Option.bind, hbyte, UInt8.ofNat_toNat]
  cases decodeList? rest <;> rfl

theorem decodeList?_encode (bytes : Bytes) : decodeList? (encode bytes).toList = some bytes := by
  rw [encode, String.toList_ofList]
  induction bytes with
  | nil => rfl
  | cons b bytes ih => rw [List.flatMap_cons, decodeList?_ofByte, ih, Option.map_some]

end Text.Hex

namespace Amino

/-! ## Values of open types -/

/-- The message that a value of an open type holds. -/
inductive Holds : Bytes → RawMessage → Prop where
  | registered {name : String} (hname : name ∈ registeredNames) (body : Bytes) :
      Holds (typePrefix name ++ body) { typeTag := name, payload := body }
  | unregistered {type : Bytes} (hlength : type.length = prefixLength)
      (hfree : ∀ name ∈ registeredNames, typePrefix name ≠ type) (body : Bytes) :
      Holds (type ++ body) { typeTag := "amino:" ++ Text.Hex.encode type, payload := body }

/-- The value that holds a message. -/
def repack (m : RawMessage) : Option Bytes :=
  if m.typeTag ∈ registeredNames then some (typePrefix m.typeTag ++ m.payload)
  else do
    let digits ← m.typeTag.toList.dropPrefix? "amino:".toList
    let type ← Text.Hex.decodeList? digits
    return type ++ m.payload

theorem typePrefix_of_nameOf? {type : Bytes} {name : String} (h : nameOf? type = some name) :
    name ∈ registeredNames ∧ typePrefix name = type := by
  obtain ⟨before, after, htable, -⟩ := List.lookup_eq_some_iff.1 h
  have hmem : (type, name) ∈ table := htable ▸ List.mem_append_right _ List.mem_cons_self
  obtain ⟨other, hother, heq⟩ := List.mem_map.1 hmem
  obtain ⟨rfl, rfl⟩ := Prod.ext_iff.1 heq
  exact ⟨hother, rfl⟩

theorem typePrefix_ne_of_nameOf? {type : Bytes} (h : nameOf? type = none) :
    ∀ name ∈ registeredNames, typePrefix name ≠ type := by
  rintro name hname rfl
  rw [nameOf?_typePrefix hname] at h
  exact absurd h (Option.some_ne_none name)

/-- **A value of at least four bytes is unpacked** to the message that it holds. -/
theorem unpack_holds {value : Bytes} (h : prefixLength ≤ value.length) :
    ∃ m, unpack value = .ok m ∧ Holds value m := by
  refine ⟨_, if_neg (Nat.not_lt.2 h), ?_⟩
  have hvalue : value.take prefixLength ++ value.drop prefixLength = value :=
    List.take_append_drop _ _
  rcases hname : nameOf? (value.take prefixLength) with _ | name
  · rw [tagOf, hname, Option.getD_none]
    have hlength : (value.take prefixLength).length = prefixLength := List.length_take_of_le h
    have hholds := Holds.unregistered hlength (typePrefix_ne_of_nameOf? hname)
      (value.drop prefixLength)
    rwa [hvalue] at hholds
  · rw [tagOf, hname, Option.getD_some]
    obtain ⟨hmem, htype⟩ := typePrefix_of_nameOf? hname
    have hholds := Holds.registered hmem (value.drop prefixLength)
    rwa [htype, hvalue] at hholds

theorem unpack_short {value : Bytes} (h : value.length < prefixLength) :
    unpack value = .error .missingTypePrefix :=
  if_pos h

/-- No registered name looks like the tag of a type that is not registered. -/
theorem unmarked : ∀ name ∈ registeredNames, ¬"amino:".toList <+: name.toList := by
  decide +kernel

theorem marked_not_registered (type : Bytes) :
    "amino:" ++ Text.Hex.encode type ∉ registeredNames := by
  intro hmem
  refine unmarked _ hmem ?_
  rw [String.toList_append]
  exact List.prefix_append _ _

/-- **The message gives the value back** that it was unpacked from. -/
theorem repack_of_holds {value : Bytes} {m : RawMessage} (h : Holds value m) :
    repack m = some value := by
  cases h with
  | registered hname body => exact if_pos hname
  | @unregistered type hlength hfree body =>
    have hmark : ("amino:" ++ Text.Hex.encode type).toList.dropPrefix? "amino:".toList =
        some (Text.Hex.encode type).toList := by
      rw [String.toList_append]
      exact List.dropPrefix?_eq_some_iff.2 ⟨_, rfl, beq_self_eq_true _⟩
    rw [repack, if_neg (marked_not_registered type)]
    simp only [hmark, Text.Hex.decodeList?_encode, bind, Option.bind, pure]

/-- All values are unpacked if none is too short. -/
theorem mapM_unpack {values : List Bytes} (h : ∀ v ∈ values, prefixLength ≤ v.length) :
    ∃ messages, values.mapM unpack = .ok messages ∧ List.Forall₂ Holds values messages := by
  induction values with
  | nil => exact ⟨[], rfl, .nil⟩
  | cons v values ih =>
    obtain ⟨m, hm, hholds⟩ := unpack_holds (h v List.mem_cons_self)
    obtain ⟨messages, hmessages, hall⟩ := ih fun w hw => h w (List.mem_cons_of_mem _ hw)
    refine ⟨m :: messages, ?_, .cons hholds hall⟩
    rw [List.mapM_cons, hm, hmessages]
    rfl

theorem mapM_unpack_short {values : List Bytes} (h : ∃ v ∈ values, v.length < prefixLength) :
    values.mapM unpack = .error .missingTypePrefix := by
  induction values with
  | nil => exact absurd h (by simp)
  | cons v values ih =>
    rw [List.mapM_cons]
    rcases Nat.lt_or_ge v.length prefixLength with hshort | hlong
    · rw [unpack_short hshort]
      rfl
    · obtain ⟨m, hm, -⟩ := unpack_holds hlong
      have hrest : ∃ w ∈ values, w.length < prefixLength := by
        obtain ⟨w, hw, hlt⟩ := h
        rcases List.mem_cons.1 hw with rfl | hw
        · exact absurd hlt (Nat.not_lt.2 hlong)
        · exact ⟨w, hw, hlt⟩
      rw [hm, ih hrest]
      rfl

theorem map_repack {values : List Bytes} {messages : List RawMessage}
    (h : List.Forall₂ Holds values messages) : messages.map repack = values.map some := by
  induction h with
  | nil => rfl
  | cons hholds _ ih => rw [List.map_cons, List.map_cons, repack_of_holds hholds, ih]

/-! ## The bytes of a transaction -/

open Protobuf (nonzero textBytes coinBytes write_text write_number write_coin)

theorem StdFee.faithful : StdFee.layout.Faithful 1 :=
  .of_completes rfl fun _ =>
    .cons (Field.copies_messages Coin.faithful (.of_eq fun _ _ => rfl)) <|
    .cons (Field.copies_single Scalar.word64_lawful (.of_eq fun _ _ => rfl)) .nil

theorem StdTx.faithful : StdTx.layout.Faithful 2 :=
  .of_completes rfl fun _ =>
    .cons (Field.copies_repeated Scalar.blob_lawful (.of_eq fun _ _ => rfl)) <|
    .cons (Field.copies_message StdFee.faithful (.of_eq fun _ _ => rfl)) <|
    .cons (Field.copies_single Scalar.text_lawful (.of_eq fun _ _ => rfl)) .nil

def feeBytes (f : StdFee) : Bytes :=
  (f.amount.flatMap fun c => Field.delimited 1 (coinBytes c)) ++ nonzero 2 f.gas

def txBytes (tx : StdTx) : Bytes :=
  tx.messages.flatMap (Field.delimited 1) ++
    (tx.fee.elim [] fun f => Field.delimited 2 (feeBytes f)) ++ textBytes 4 tx.memo

theorem write_fee (f : StdFee) : StdFee.layout.write f = feeBytes f := by
  rw [Wire.Layout.write]
  simp only [StdFee.layout, List.flatMap_cons, List.flatMap_nil, List.append_nil, Field.messages,
    write_number, write_coin, feeBytes]

theorem write_tx (tx : StdTx) : StdTx.layout.write tx = txBytes tx := by
  rw [Wire.Layout.write]
  simp only [StdTx.layout, List.flatMap_cons, List.flatMap_nil, List.append_nil, Field.message,
    write_text, write_fee, txBytes, List.append_assoc]
  rfl

/-! ## Reading it back -/

theorem stripLength_frame {body : Bytes} (h : body.length < UInt64.size) :
    stripLength (Wire.Varint.write body.length ++ body) = .ok body := by
  have henough : ¬body.length < body.length := Nat.lt_irrefl _
  simp only [stripLength, Wire.located, Wire.Varint.read_write h, Except.mapError, bind, Except.bind,
    if_neg henough, List.take_length, pure, Except.pure]

theorem standard_registered {name : String} (h : name ∈ standardNames) : name ∈ registeredNames := by
  have hall : ∀ name ∈ standardNames, name ∈ registeredNames := by decide
  exact hall name h

/-- What is decoded are the messages, once they are unpacked. -/
theorem decode_encode {name : String} (hname : name ∈ standardNames) {tx : StdTx}
    (hsize : (encode name tx).length < UInt64.size) :
    decode (encode name tx) = do
      let messages ← tx.messages.mapM unpack
      return { messages, memo := tx.memo, fee := (tx.fee.map StdFee.amount).getD [],
               encoding := .amino } := by
  have hvalue : (pack name (StdTx.layout.write tx)).length < UInt64.size := by
    rw [encode, List.length_append] at hsize
    omega
  have hbody : (StdTx.layout.write tx).length < UInt64.size := by
    rw [pack, List.length_append] at hvalue
    omega
  have hread : StdTx.layout.read (StdTx.layout.write tx) = .ok tx :=
    StdTx.faithful.read_write (by decide) hbody
  have hstandard : ¬(!standardNames.contains name) = true := by simpa using hname
  simp only [decode, encode, stripLength_frame hvalue, unpack_pack (standard_registered hname),
    if_neg hstandard, hread, Except.mapError, bind, Except.bind, pure, Except.pure]

/-- **Amino envelopes are read back.** A transaction under either standard name is written with its
length in front, and whatever its messages, its memo and its fee: what is decoded are its messages in
their order, each with its type's name or bytes, with the memo and the fee, provided that every message
has the four bytes of its type. Otherwise one of them is missing. Nothing is lost by that: each message
gives back the value that it was unpacked from, so different values are unpacked to different
messages. -/
theorem stdTx_round_trip (name : String) (hname : name ∈ standardNames) (tx : StdTx)
    (hsize : (encode name tx).length < UInt64.size) :
    encode name tx = Wire.Varint.write (typePrefix name ++ txBytes tx).length ++
        (typePrefix name ++ txBytes tx) ∧
      ((∀ v ∈ tx.messages, 4 ≤ v.length) →
        ∃ messages, List.Forall₂ Holds tx.messages messages ∧
          messages.map repack = tx.messages.map some ∧
          decode (encode name tx) = .ok
            { messages, memo := tx.memo, fee := tx.fee.elim [] StdFee.amount, encoding := .amino }) ∧
      ((∃ v ∈ tx.messages, v.length < 4) →
        decode (encode name tx) = .error .missingTypePrefix) ∧
      ∀ v w : Bytes, 4 ≤ v.length → 4 ≤ w.length → unpack v = unpack w → v = w := by
  refine ⟨?_, fun hlong => ?_, fun hshort => ?_, fun v w hv hw heq => ?_⟩
  · rw [encode, pack, write_tx]
  · obtain ⟨messages, hmessages, hholds⟩ := mapM_unpack hlong
    refine ⟨messages, hholds, map_repack hholds, ?_⟩
    rw [decode_encode hname hsize, hmessages]
    cases tx.fee <;> rfl
  · rw [decode_encode hname hsize, mapM_unpack_short hshort]
    rfl
  · obtain ⟨m, hm, hholds⟩ := unpack_holds hv
    obtain ⟨m', hm', hholds'⟩ := unpack_holds hw
    have hsame : m = m' := Except.ok.inj (hm.symm.trans (heq.trans hm'))
    subst hsame
    exact Option.some.inj ((repack_of_holds hholds).symm.trans (repack_of_holds hholds'))

/-- A message of a registered type beside one of an unknown type, and one that is too short. -/
theorem stdTx_round_trip_two :
    let send := pack "bank/MsgSend" [10, 1, 7]
    let unknown : Bytes := [0xde, 0xad, 0xbe, 0xef, 1]
    let fee : StdFee := { amount := [⟨"ukrw", "2896"⟩], gas := 200000 }
    let whole := encode "core/StdTx" { messages := [send, unknown], fee := some fee, memo := "memo" }
    let broken := encode "cosmos-sdk/StdTx" { messages := [send, [1, 2]] }
    whole.length < UInt64.size ∧ broken.length < UInt64.size ∧
      (∃ messages, messages.map repack = [some send, some unknown] ∧
        decode whole = .ok { messages, memo := "memo", fee := [⟨"ukrw", "2896"⟩], encoding := .amino }) ∧
      decode broken = .error .missingTypePrefix := by
  intro send unknown fee whole broken
  have hwhole : whole.length < UInt64.size := by decide +kernel
  have hbroken : broken.length < UInt64.size := by decide +kernel
  have hsend : 4 ≤ send.length := by decide +kernel
  obtain ⟨-, hok, -⟩ := stdTx_round_trip "core/StdTx" (by decide) _ hwhole
  obtain ⟨-, -, hshort, -⟩ := stdTx_round_trip "cosmos-sdk/StdTx" (by decide) _ hbroken
  obtain ⟨messages, -, hrepack, hdecode⟩ := hok (by simp [hsend, unknown])
  exact ⟨hwhole, hbroken, ⟨messages, hrepack, hdecode⟩, hshort ⟨[1, 2], by simp, by decide⟩⟩

end Amino

end ChainIndex
