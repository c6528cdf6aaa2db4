import ChainIndex.Envelope.Protobuf
import ChainIndex.Proofs.Layouts

/-!
# Protobuf envelopes are read back

A transaction is three layers of bytes within bytes. Written out (`bodyBytes`, `authBytes`), empty
values are left out at every layer, lists are one occurrence after the other, and all lengths are of any
number of bytes.

* `named_ok`, `named_error`: messages are taken in their order, up to the first one without a type URL.
* `envelope_round_trip`: **decoding an encoded transaction gives its messages, memo and fee**, or the
  index of the first message without a type URL.
-/

namespace ChainIndex

open Wire (Bytes Field Scalar Layout Completes nestingLimit)

theorem Coin.faithful : Coin.layout.Faithful 0 :=
  .of_completes rfl fun _ =>
    .cons (Field.copies_single Scalar.text_lawful (.of_eq fun _ _ => rfl)) <|
    .cons (Field.copies_single Scalar.text_lawful (.of_eq fun _ _ => rfl)) .nil

namespace Protobuf

theorem Packed.faithful : Packed.layout.Faithful 0 :=
  .of_completes rfl fun _ =>
    .cons (Field.copies_single Scalar.text_lawful (.of_eq fun _ _ => rfl)) <|
    .cons (Field.copies_single Scalar.blob_lawful (.of_eq fun _ _ => rfl)) .nil

theorem TxRaw.faithful : TxRaw.layout.Faithful 0 :=
  .of_completes rfl fun _ =>
    .cons (Field.copies_single Scalar.blob_lawful (.of_eq fun _ _ => rfl)) <|
    .cons (Field.copies_single Scalar.blob_lawful (.of_eq fun _ _ => rfl)) <|
    .cons (Field.copies_repeated Scalar.blob_lawful (.of_eq fun _ _ => rfl)) .nil

theorem TxBody.faithful : TxBody.layout.Faithful 1 :=
  .of_completes rfl fun _ =>
    .cons (Field.copies_messages Packed.faithful (.of_eq fun _ _ => rfl)) <|
    .cons (Field.copies_single Scalar.text_lawful (.of_eq fun _ _ => rfl)) <|
    .cons (Field.copies_single Scalar.word64_lawful (.of_eq fun _ _ => rfl)) .nil

theorem Fee.faithful : Fee.layout.Faithful 1 :=
  .of_completes rfl fun _ =>
    .cons (Field.copies_messages Coin.faithful (.of_eq fun _ _ => rfl)) <|
    .cons (Field.copies_single Scalar.word64_lawful (.of_eq fun _ _ => rfl)) <|
    .cons (Field.copies_single Scalar.text_lawful (.of_eq fun _ _ => rfl)) <|
    .cons (Field.copies_single Scalar.text_lawful (.of_eq fun _ _ => rfl)) .nil

theorem AuthInfo.faithful : AuthInfo.layout.Faithful 2 :=
  .of_completes rfl fun _ =>
    .cons (Field.copies_message Fee.faithful (.of_eq fun _ _ => rfl)) .nil

/-! ## The bytes of a transaction -/

/-- Bytes under a tag; no bytes are left out. -/
def present (tag : Nat) (body : Bytes) : Bytes :=
  if body.isEmpty then [] else Field.delimited tag body

/-- A number under a tag; zero is left out. -/
def nonzero (tag : Nat) (n : UInt64) : Bytes :=
  if n = 0 then [] else Wire.Key.write ⟨tag, .varint⟩ ++ Wire.Varint.write n.toNat

def textBytes (tag : Nat) (s : String) : Bytes :=
  present tag (Text.Utf8.encode s)

def Packed.bytes (p : Packed) : Bytes :=
  textBytes 1 p.typeUrl ++ present 2 p.value

def bodyBytes (b : TxBody) : Bytes :=
  (b.messages.flatMap fun p => Field.delimited 1 p.bytes) ++ textBytes 2 b.memo ++
    nonzero 3 b.timeoutHeight

def coinBytes (c : Coin) : Bytes :=
  textBytes 1 c.denom ++ textBytes 2 c.amount

def feeBytes (f : Fee) : Bytes :=
  (f.amount.flatMap fun c => Field.delimited 1 (coinBytes c)) ++ nonzero 2 f.gasLimit ++
    textBytes 3 f.payer ++ textBytes 4 f.granter

def authBytes (a : AuthInfo) : Bytes :=
  a.fee.elim [] fun f => Field.delimited 2 (feeBytes f)

theorem length_le_present (tag : Nat) (body : Bytes) : body.length ≤ (present tag body).length := by
  unfold present
  split
  · rename_i hempty
    simp [List.isEmpty_iff.1 hempty]
  · simp only [Field.delimited, Scalar.blob, List.length_append]
    omega

section Write

variable {α : Type} (tag : Nat) (name : String) (a : α)

theorem write_blob {get : α → Bytes} {set : α → Bytes → α} :
    (Field.single .blob tag name get set).write a = present tag (get a) := rfl

theorem write_text {get : α → String} {set : α → String → α} :
    (Field.single .text tag name get set).write a = textBytes tag (get a) := by
  have hempty : (get a).isEmpty = (Text.Utf8.encode (get a)).isEmpty := by
    rw [Bool.eq_iff_iff, String.isEmpty_iff, List.isEmpty_iff, Text.Utf8.encode_eq_nil_iff]
  rw [textBytes, present, ← hempty]
  rfl

theorem write_number {get : α → UInt64} {set : α → UInt64 → α} :
    (Field.single .word64 tag name get set).write a = nonzero tag (get a) := by
  unfold nonzero
  by_cases hzero : get a = 0
  · rw [if_pos hzero]
    exact if_pos (beq_iff_eq.2 hzero)
  · rw [if_neg hzero]
    exact if_neg (fun h => hzero (beq_iff_eq.1 h))

end Write

theorem write_packed (p : Packed) : Packed.layout.write p = p.bytes := by
  rw [Layout.write]
  simp only [Packed.layout, List.flatMap_cons, List.flatMap_nil, List.append_nil, write_text,
    write_blob, Packed.bytes]

theorem write_coin (c : Coin) : Coin.layout.write c = coinBytes c := by
  rw [Layout.write]
  simp only [Coin.layout, List.flatMap_cons, List.flatMap_nil, List.append_nil, write_text,
    coinBytes]

theorem write_body (b : TxBody) : TxBody.layout.write b = bodyBytes b := by
  rw [Layout.write]
  simp only [TxBody.layout, List.flatMap_cons, List.flatMap_nil, List.append_nil, Field.messages,
    write_text, write_number, write_packed, bodyBytes, List.append_assoc]

theorem write_fee (f : Fee) : Fee.layout.write f = feeBytes f := by
  rw [Layout.write]
  simp only [Fee.layout, List.flatMap_cons, List.flatMap_nil, List.append_nil, Field.messages,
    write_text, write_number, write_coin, feeBytes, List.append_assoc]

theorem write_auth (a : AuthInfo) : AuthInfo.layout.write a = authBytes a := by
  rw [Layout.write]
  simp only [AuthInfo.layout, List.flatMap_cons, List.flatMap_nil, List.append_nil, Field.message,
    write_fee, authBytes]

/-- **The bytes of a transaction**, field by field. -/
theorem encode_eq (body : TxBody) (auth : AuthInfo) (signatures : List Bytes) :
    encode body auth signatures = present 1 (bodyBytes body) ++ present 2 (authBytes auth) ++
      signatures.flatMap (Field.delimited 3) := by
  rw [encode, Layout.write]
  simp only [TxRaw.layout, List.flatMap_cons, List.flatMap_nil, List.append_nil, write_blob,
    write_body, write_auth, List.append_assoc]
  rfl

/-! ## Reading it back -/

/-- Messages that all name their types are taken in their order. -/
theorem named_ok {ps : List Packed} (h : ∀ p ∈ ps, p.typeUrl ≠ "") :
    ∀ index, named index ps = .ok (ps.map Packed.toMessage) := by
  induction ps with
  | nil => exact fun _ => rfl
  | cons p ps ih =>
    intro index
    have hne : ¬p.typeUrl.isEmpty = true := fun hempty =>
      h p List.mem_cons_self (String.isEmpty_iff.1 hempty)
    have hrest := ih (fun q hq => h q (List.mem_cons_of_mem _ hq)) (index + 1)
    simp only [named, if_neg hne, hrest]
    rfl

/-- The first message that does not name its type is told by its index. -/
theorem named_error {before after : List Packed} {p : Packed}
    (hbefore : ∀ q ∈ before, q.typeUrl ≠ "") (hp : p.typeUrl = "") :
    ∀ index, named index (before ++ p :: after) = .error (.emptyTypeUrl (index + before.length)) := by
  induction before with
  | nil =>
    intro index
    rw [List.nil_append, named, if_pos (String.isEmpty_iff.2 hp)]
    rfl
  | cons q before ih =>
    intro index
    have hne : ¬q.typeUrl.isEmpty = true := fun hempty =>
      hbefore q List.mem_cons_self (String.isEmpty_iff.1 hempty)
    have hrest := ih (fun x hx => hbefore x (List.mem_cons_of_mem _ hx)) (index + 1)
    simp only [List.cons_append, named, if_neg hne, hrest]
    rw [List.length_cons, Nat.add_assoc, Nat.add_comm 1]
    rfl

/-- What is decoded are the messages, whatever else there is. -/
theorem decode_encode {body : TxBody} {auth : AuthInfo} {signatures : List Bytes}
    (hsize : (encode body auth signatures).length < UInt64.size) :
    decode (encode body auth signatures) = do
      let messages ← named 0 body.messages
      return { messages, memo := body.memo, fee := (auth.fee.map Fee.amount).getD [],
               encoding := .proto } := by
  have hlength := congrArg List.length (encode_eq body auth signatures)
  rw [List.length_append, List.length_append] at hlength
  have hbody := length_le_present 1 (bodyBytes body)
  have hauth := length_le_present 2 (authBytes auth)
  rw [← write_body] at hbody hlength
  rw [← write_auth] at hauth hlength
  have hread := TxRaw.faithful.read_write (Nat.zero_le _) hsize
  have hreadBody : TxBody.layout.read (TxBody.layout.write body) = .ok body :=
    TxBody.faithful.read_write (by decide) (by omega)
  have hreadAuth : AuthInfo.layout.read (AuthInfo.layout.write auth) = .ok auth :=
    AuthInfo.faithful.read_write (by decide) (by omega)
  simp only [decode, encode, hread, hreadBody, hreadAuth, Except.mapError, bind, Except.bind]

/-- **Protobuf envelopes are read back.** A transaction is written field by field, and whatever its
messages hold, whatever its memo and fee, and whatever is signed: what is decoded are its messages in
their order, each under its type URL, with the memo and the fee, provided that all messages have a type
URL. Otherwise it is the index of the first that has none. -/
theorem envelope_round_trip (body : TxBody) (auth : AuthInfo) (signatures : List Bytes)
    (hsize : (encode body auth signatures).length < UInt64.size) :
    encode body auth signatures = present 1 (bodyBytes body) ++ present 2 (authBytes auth) ++
        signatures.flatMap (Field.delimited 3) ∧
      ((∀ p ∈ body.messages, p.typeUrl ≠ "") →
        decode (encode body auth signatures) = .ok
          { messages := body.messages.map fun p => { typeTag := p.typeUrl, payload := p.value }
            memo := body.memo
            fee := auth.fee.elim [] Fee.amount
            encoding := .proto }) ∧
      ∀ before p after, body.messages = before ++ p :: after →
        (∀ q ∈ before, q.typeUrl ≠ "") → p.typeUrl = "" →
        decode (encode body auth signatures) = .error (.emptyTypeUrl before.length) := by
  refine ⟨encode_eq body auth signatures, fun hnamed => ?_, fun before p after hmessages hbefore hp => ?_⟩
  · rw [decode_encode hsize, named_ok hnamed]
    cases auth.fee <;> rfl
  · rw [decode_encode hsize, hmessages, named_error hbefore hp, Nat.zero_add]
    rfl

/-- A message with a type URL and one without anything, and a fee of one coin. -/
theorem envelope_round_trip_two :
    let send : Packed := { typeUrl := "/cosmos.bank.v1beta1.MsgSend", value := [10, 1, 97] }
    let auth : AuthInfo := { fee := some { amount := [⟨"uluna", "150"⟩], gasLimit := 200000 } }
    let whole := encode { messages := [send, send], memo := "hello" } auth [[1, 2, 3]]
    let broken := encode { messages := [send, {}], timeoutHeight := 300 } {} []
    whole.length < UInt64.size ∧ broken.length < UInt64.size ∧
      decode whole = .ok
        { messages := [⟨"/cosmos.bank.v1beta1.MsgSend", [10, 1, 97]⟩,
            ⟨"/cosmos.bank.v1beta1.MsgSend", [10, 1, 97]⟩]
          memo := "hello"
          fee := [⟨"uluna", "150"⟩]
          encoding := .proto } ∧
      decode broken = .error (.emptyTypeUrl 1) := by
  intro send auth whole broken
  have hwhole : whole.length < UInt64.size := by decide +kernel
  have hbroken : broken.length < UInt64.size := by decide +kernel
  obtain ⟨-, hok, -⟩ := envelope_round_trip _ _ _ hwhole
  obtain ⟨-, -, herror⟩ := envelope_round_trip _ _ _ hbroken
  exact ⟨hwhole, hbroken, hok (by simp [send]), herror [send] {} [] rfl (by simp [send]) rfl⟩

end Protobuf

end ChainIndex
