import ChainIndex.Proofs.MessageLayouts
import ChainIndex.Proofs.RegisteredNames

/-!
# What the encodings carry

The two encodings differ in three places: an address is carried as its bytes or as its text, a digest as
its bytes or in hexadecimal, and a wrapped message with the bytes of its registered name in front or next
to its type URL. Each of them is read back as one and the same.

* `Context.account_carried`, `Context.validator_carried`: an address is read as its text.
* `Context.hexText_carried`: a digest is read in hexadecimal.
* `Wrapping.unpack_wrap`: a wrapped message is unpacked to its kind and its bytes.
-/

namespace ChainIndex

open Wire (Bytes Scalar Layout)

/-! ## ASCII -/

namespace Text

theorem Utf8.encode_ofList (cs : List Char) :
    encode (String.ofList cs) = cs.flatMap String.utf8EncodeChar := by
  simp [encode, List.utf8Encode]

theorem Utf8.lossyList_ascii {cs : List Char} (h : ∀ c ∈ cs, c.toNat < 128) :
    lossyList (cs.flatMap String.utf8EncodeChar) = cs := by
  induction cs with
  | nil =>
    rw [List.flatMap_nil]
    unfold lossyList
    rfl
  | cons c cs ih =>
    have hc : c.toNat < 128 := h c List.mem_cons_self
    have hsize : c.utf8Size = 1 := by
      rw [Char.utf8Size_eq_one_iff]
      exact UInt32.le_iff_toNat_le.2 (Nat.le_of_lt_succ hc)
    have hnat : c.val.toUInt8.toNat = c.toNat := by
      rw [UInt32.toNat_toUInt8]
      exact Nat.mod_eq_of_lt (Nat.lt_trans hc (by decide))
    have hbyte : c.val.toUInt8 < 0x80 := by
      rw [UInt8.lt_iff_toNat_lt, hnat]
      exact hc
    -- a byte below 128 is a character by itself
    have hnext : ∀ rest, next c.val.toUInt8 rest = (some c, 0) := by
      intro rest
      unfold next
      rw [if_pos hbyte, hnat, Char.ofNat_toNat]
    have hrest := ih fun c' hc' => h c' (List.mem_cons_of_mem _ hc')
    rw [List.flatMap_cons, String.utf8EncodeChar_eq_singleton hsize, List.singleton_append, lossyList,
      hnext]
    show c :: lossyList ((cs.flatMap String.utf8EncodeChar).drop 0) = c :: cs
    rw [List.drop_zero, hrest]

theorem Utf8.lossy_encode {s : String} (h : ∀ c ∈ s.toList, c.toNat < 128) :
    lossy (encode s) = s := by
  have hchars := lossyList_ascii h
  rw [← encode_ofList, String.ofList_toList] at hchars
  rw [lossy, hchars, String.ofList_toList]

theorem Hex.digit_mem (n : Nat) : digit n ∈ alphabet := by
  rw [digit, List.getD]
  rcases h : alphabet[n]? with _ | c
  · rw [Option.getD_none]
    decide
  · rw [Option.getD_some]
    exact List.mem_of_getElem? h

theorem Hex.mem_encode {c : Char} {bytes : Bytes} (h : c ∈ (encode bytes).toList) :
    c ∈ alphabet := by
  rw [encode, String.toList_ofList, List.mem_flatMap] at h
  obtain ⟨b, -, hc⟩ := h
  simp only [ofByte, List.mem_cons, List.not_mem_nil, or_false] at hc
  rcases hc with rfl | rfl <;> exact digit_mem _

theorem Hex.lossy_encode (bytes : Bytes) : Utf8.lossy (Utf8.encode (encode bytes)) = encode bytes := by
  have hascii : (alphabet.all fun c => c.toNat < 128) = true := rfl
  rw [List.all_eq_true] at hascii
  exact Utf8.lossy_encode fun c hc => of_decide_eq_true (hascii c (mem_encode hc))

end Text

/-! ## Fields -/

namespace Encoding

/-- An address in a field: its bytes, or its text. -/
def address (role : Role) (raw : Bytes) : Encoding → Bytes
  | .amino => raw
  | .proto => Text.Utf8.encode (Address.encode raw role)

/-- A digest in a field: its bytes, or their digits. -/
def digest (raw : Bytes) : Encoding → Bytes
  | .amino => raw
  | .proto => Text.Utf8.encode (Text.Hex.encode raw)

end Encoding

namespace Context

variable (e : Encoding) (log : LogEntry) (field : String) (raw : Bytes)

theorem address_carried (role : Role) :
    (⟨e, log⟩ : Context).address role field (e.address role raw) = .ok (Address.encode raw role) := by
  cases e with
  | amino => rfl
  | proto =>
    have htext : String.fromUTF8? ⟨(Text.Utf8.encode (Address.encode raw role)).toArray⟩ =
        some (Address.encode raw role) := Text.Utf8.decode?_encode _
    simp only [address, Encoding.address, Address.normalize, htext, Except.mapError]

theorem account_carried : (⟨e, log⟩ : Context).account field (e.address .account raw) =
    .ok { id := Address.encode raw .account } := by
  rw [account, address_carried]
  rfl

theorem validator_carried :
    (⟨e, log⟩ : Context).validator field (e.address .validatorOperator raw) =
      .ok { id := Address.encode raw .validatorOperator } := by
  rw [validator, address_carried]
  rfl

theorem hexText_carried :
    (⟨e, log⟩ : Context).hexText (e.digest raw) = Text.Hex.encode raw := by
  cases e with
  | amino => rfl
  | proto => exact Text.Hex.lossy_encode raw

/-- Transfers depend on the log alone. -/
theorem addTransfers_eq (kind skipped : String) (event : Event) :
    (⟨e, log⟩ : Context).addTransfers kind skipped event =
      (event.withTransfers kind skipped log).mapError (.amount "transfer") := rfl

end Context

/-! ## Wrapped messages -/

/-- Two tags under which messages of a kind are wrapped: a registered name, for the legacy encoding, and
one for the later encoding, the type URL. -/
structure MessageKind.Wrapping (k : MessageKind) where
  name : String
  url : String
  name_mem : name ∈ k.tags := by decide
  registered : name ∈ Amino.registeredNames := by decide
  url_mem : url ∈ k.tags := by decide

namespace MessageKind.Wrapping

variable {k : MessageKind} (w : k.Wrapping) (body : Bytes)

/-- A message, wrapped. -/
def wrap : Encoding → Bytes
  | .amino => Amino.pack w.name body
  | .proto => Protobuf.Packed.layout.write { typeUrl := w.url, value := body }

theorem length_le_wrap (e : Encoding) : body.length ≤ (w.wrap body e).length := by
  cases e with
  | amino =>
    show body.length ≤ (Amino.typePrefix w.name ++ body).length
    rw [List.length_append]
    omega
  | proto =>
    have hle := Protobuf.length_le_present 2 body
    rw [wrap, Protobuf.write_packed]
    show body.length ≤ (Protobuf.textBytes 1 w.url ++ Protobuf.present 2 body).length
    rw [List.length_append]
    omega

/-- **A wrapped message is unpacked** to a message of its kind. -/
theorem unpack_wrap {e : Encoding} (log : LogEntry) (hsize : (w.wrap body e).length < UInt64.size) :
    ∃ raw, (⟨e, log⟩ : Context).unpack (w.wrap body e) = .ok raw ∧
      Message.resolve raw = .known k body := by
  cases e with
  | amino =>
    refine ⟨⟨w.name, body⟩, ?_, ?_⟩
    · show (Amino.unpack (Amino.pack w.name body)).mapError _ = _
      rw [Amino.unpack_pack w.registered]
      rfl
    · rw [Message.resolve, MessageKind.ofTag?_of_mem w.name_mem]
  | proto =>
    refine ⟨⟨w.url, body⟩, ?_, ?_⟩
    · have hread := Protobuf.Packed.faithful.read_write (by decide) hsize
      show (Protobuf.unpack (Protobuf.Packed.layout.write _)).mapError _ = _
      rw [Protobuf.unpack, hread]
      rfl
    · rw [Message.resolve, MessageKind.ofTag?_of_mem w.url_mem]

end MessageKind.Wrapping

end ChainIndex
