import ChainIndex.Envelope.Decode

/-!
# Why bytes are no transaction

Bytes are refused for what their encoding asks of a transaction: in amino for a length and a type in front
of a value, in protobuf for a URL with each message, and in both for the fields. So the words for a refusal
name the encoding, or something that only its transactions have (`Envelope.Fails`).

* `Amino.decode_error`, `Protobuf.decode_error`: what bytes are refused for.
* `Envelope.fails_iff`: **each attempt that fails says so in such words.**
* `Envelope.Fails.encoding_eq`: the words tell which encoding was tried.
-/

namespace ChainIndex

/-! ## Steps that fail -/

/-- What fails has failed at its first step or after it. -/
theorem bind_eq_error {ε α β : Type} {x : Except ε α} {f : α → Except ε β} {e : ε} :
    x >>= f = .error e ↔ x = .error e ∨ ∃ a, x = .ok a ∧ f a = .error e := by
  cases x <;> simp [bind, Except.bind]

theorem mapError_eq_error {ε ε' α : Type} {x : Except ε α} {f : ε → ε'} {e : ε'} :
    x.mapError f = .error e ↔ ∃ e', x = .error e' ∧ f e' = e := by
  cases x with
  | ok a => exact ⟨nofun, fun ⟨_, h, _⟩ => nomatch h⟩
  | error e =>
    refine ⟨fun h => ⟨e, rfl, Except.error.inj h⟩, ?_⟩
    rintro ⟨_, ⟨⟩, rfl⟩
    rfl

theorem exists_of_mapM_error {ε α β : Type} {f : α → Except ε β} {as : List α} {e : ε}
    (h : as.mapM f = .error e) : ∃ a ∈ as, f a = .error e := by
  induction as with
  | nil => cases h
  | cons a as ih =>
    rw [List.mapM_cons] at h
    obtain hfirst | ⟨b, -, h⟩ := bind_eq_error.1 h
    · exact ⟨a, List.mem_cons_self, hfirst⟩
    · obtain hrest | ⟨bs, -, h⟩ := bind_eq_error.1 h
      · obtain ⟨a', ha', herror⟩ := ih hrest
        exact ⟨a', List.mem_cons_of_mem _ ha', herror⟩
      · cases h

/-! ## What each encoding refuses -/

variable {bytes : Wire.Bytes} {refusal : Envelope.Error}

namespace Amino

theorem unpack_error (h : unpack bytes = .error refusal) : refusal = .missingTypePrefix := by
  unfold unpack at h
  split at h
  · exact (Except.error.inj h).symm
  · cases h

theorem stripLength_error (h : stripLength bytes = .error refusal) :
    (∃ source, refusal = .unreadable .amino source) ∨
      ∃ declared available, refusal = .length declared available := by
  obtain hlength | ⟨⟨declared, rest⟩, -, h⟩ := bind_eq_error.1 h
  · obtain ⟨source, -, rfl⟩ := mapError_eq_error.1 hlength
    exact .inl ⟨source, rfl⟩
  · by_cases hshort : rest.length < declared
    · simp only [hshort, if_true] at h
      cases h
      exact .inr ⟨declared, rest.length, rfl⟩
    · simp only [hshort, if_false] at h
      cases h

/-- A transaction in amino is refused for its length, its type, its fields or the type of a message. -/
theorem decode_error (h : decode bytes = .error refusal) :
    (∃ source, refusal = .unreadable .amino source) ∨
      (∃ declared available, refusal = .length declared available) ∨
      refusal = .missingTypePrefix ∨ ∃ typeTag, refusal = .unexpectedType typeTag := by
  obtain hstrip | ⟨framed, -, h⟩ := bind_eq_error.1 h
  · exact (stripLength_error hstrip).imp_right .inl
  obtain htype | ⟨value, -, h⟩ := bind_eq_error.1 h
  · exact .inr (.inr (.inl (unpack_error htype)))
  by_cases hstandard : standardNames.contains value.typeTag = true
  · simp only [hstandard, Bool.not_true, Bool.false_eq_true, if_false] at h
    obtain hread | ⟨tx, -, h⟩ := bind_eq_error.1 h
    · obtain ⟨source, -, rfl⟩ := mapError_eq_error.1 hread
      exact .inl ⟨source, rfl⟩
    obtain hmessages | ⟨messages, -, h⟩ := bind_eq_error.1 h
    · obtain ⟨value, -, hshort⟩ := exists_of_mapM_error hmessages
      exact .inr (.inr (.inl (unpack_error hshort)))
    · cases h
  · simp only [hstandard] at h
    cases h
    exact .inr (.inr (.inr ⟨value.typeTag, rfl⟩))

end Amino

namespace Protobuf

theorem of_named_error {messages : List Packed} : ∀ {index : Nat},
    named index messages = .error refusal → ∃ number, refusal = .emptyTypeUrl number := by
  induction messages with
  | nil => exact nofun
  | cons p messages ih =>
    intro index h
    by_cases hempty : p.typeUrl.isEmpty = true
    · simp only [named, hempty, if_true] at h
      cases h
      exact ⟨index, rfl⟩
    · simp only [named, hempty] at h
      obtain hrest | ⟨rest, -, h⟩ := bind_eq_error.1 h
      · exact ih hrest
      · cases h

/-- A transaction in protobuf is refused for its fields or for a message without a type. -/
theorem decode_error (h : decode bytes = .error refusal) :
    (∃ source, refusal = .unreadable .proto source) ∨ ∃ index, refusal = .emptyTypeUrl index := by
  have hread {α : Type} {x : Except Wire.ReadError α}
      (hx : x.mapError (.unreadable .proto) = .error refusal) :
      ∃ source, refusal = .unreadable .proto source := by
    obtain ⟨source, -, rfl⟩ := mapError_eq_error.1 hx
    exact ⟨source, rfl⟩
  obtain hraw | ⟨raw, -, h⟩ := bind_eq_error.1 h
  · exact .inl (hread hraw)
  obtain hbody | ⟨body, -, h⟩ := bind_eq_error.1 h
  · exact .inl (hread hbody)
  obtain hauth | ⟨auth, -, h⟩ := bind_eq_error.1 h
  · exact .inl (hread hauth)
  obtain hnames | ⟨messages, -, h⟩ := bind_eq_error.1 h
  · exact .inr (of_named_error hnames)
  · cases h

end Protobuf

/-! ## The words for it -/

namespace Envelope

/-- An attempt with this encoding fails, and the text says so. It names the encoding, or something that
only its transactions have: amino values have a length and a type in front, protobuf messages a URL. -/
inductive Fails (bytes : Wire.Bytes) : Encoding → String → Prop where
  | amino {source : Wire.ReadError} (h : decode bytes .amino = .error (.unreadable .amino source)) :
    Fails bytes .amino ("amino decode failed: " ++ source.message)
  | length {declared available : Nat}
    (h : decode bytes .amino = .error (.length declared available)) :
    Fails bytes .amino ("length prefix says " ++ toString declared ++ " bytes, " ++
      toString available ++ " available")
  | typePrefix (h : decode bytes .amino = .error .missingTypePrefix) :
    Fails bytes .amino "interface value shorter than its 4-byte type prefix"
  | type {typeTag : String} (h : decode bytes .amino = .error (.unexpectedType typeTag)) :
    Fails bytes .amino ("unexpected envelope type '" ++ typeTag ++ "'")
  | proto {source : Wire.ReadError} (h : decode bytes .proto = .error (.unreadable .proto source)) :
    Fails bytes .proto ("proto decode failed: " ++ source.message)
  | typeUrl {index : Nat} (h : decode bytes .proto = .error (.emptyTypeUrl index)) :
    Fails bytes .proto ("message " ++ toString index ++ " has an empty type URL")

variable {encoding other : Encoding} {text : String}

/-- **Each attempt that fails says so**, in words for its own encoding. -/
theorem fails_iff : Fails bytes encoding text ↔
    ∃ refusal, decode bytes encoding = .error refusal ∧ refusal.message = text := by
  constructor
  · intro h
    cases h with
    | amino h | length h | typePrefix h | type h | proto h | typeUrl h => exact ⟨_, h, rfl⟩
  · rintro ⟨refusal, h, rfl⟩
    cases encoding with
    | amino =>
      obtain ⟨source, rfl⟩ | ⟨declared, available, rfl⟩ | rfl | ⟨typeTag, rfl⟩ :=
        Amino.decode_error h
      · exact .amino h
      · exact .length h
      · exact .typePrefix h
      · exact .type h
    | proto =>
      obtain ⟨source, rfl⟩ | ⟨index, rfl⟩ := Protobuf.decode_error h
      · exact .proto h
      · exact .typeUrl h

/-- **The words tell which encoding was tried**: their first letter does. -/
theorem Fails.encoding_eq {others : Wire.Bytes} (h : Fails bytes encoding text)
    (h' : Fails others other text) : encoding = other := by
  have hfirst {bs : Wire.Bytes} {e : Encoding} (h : Fails bs e text) :
      (text.toList.head?.any (· ∈ ['p', 'm'])) = decide (e = .proto) := by
    cases h <;> simp
  have hsame := (hfirst h).symm.trans (hfirst h')
  cases encoding <;> cases other
  · rfl
  · simp at hsame
  · simp at hsame
  · rfl

end Envelope

end ChainIndex
