import ChainIndex.Proofs.FailedEntries

/-!
# Decoding with a node and without

The bytes of a transaction and its log can be decoded without a node: its fee from the bytes alone, its
events from both. Each way reads the same parts, but in another order, and treats what fails differently.

* `decode_of_envelope`: **what a transaction comes to is what its fee comes to**, with the same events.
* `offline_agrees`: the ways agree on what can be read, and on what cannot be.
-/

namespace ChainIndex

/-- Both amounts of gas can be read. -/
def RawTransaction.GasAccepted (raw : RawTransaction) : Prop :=
  (Text.word64? (Text.trimmed raw.execution.gasWanted)).isSome ∧
    (Text.word64? (Text.trimmed raw.execution.gasUsed)).isSome

instance (raw : RawTransaction) : Decidable raw.GasAccepted :=
  inferInstanceAs (Decidable (_ ∧ _))

/-- The records of messages that have no event. -/
def Metric.isFailedMessage (m : Metric) : Bool :=
  m.isUnknownMessage || m.isBrokenMessage

theorem gasOf_of_isSome {value : String} (field : String)
    (h : (Text.word64? (Text.trimmed value)).isSome) : ∃ n, gasOf field value = .ok n := by
  obtain ⟨n, hn⟩ := Option.isSome_iff_exists.1 h
  refine ⟨n, ?_⟩
  unfold gasOf
  rw [hn]

namespace Decoder

variable {d : Decoder} {raw : RawTransaction} {tx log : String} {e : Envelope} {source : UnreadableTx}
  {entries : List LogEntry}

/-! ## Without a node -/

theorem decodeFee_of_envelope (h : d.envelope tx = .ok e) :
    d.decodeFee tx = e.feeAmounts.mapError .fee := by
  rw [decodeFee, h]
  rfl

theorem decodeFee_of_error (h : d.envelope tx = .error source) :
    d.decodeFee tx = .error (.envelope source) := by
  rw [decodeFee, h]
  rfl

theorem decodeEvents_of_envelope (h : d.envelope tx = .ok e) (hlog : Log.parse? log = some entries) :
    d.decodeEvents tx log = .ok (d.events e entries) := by
  simp only [decodeEvents, h, hlog, Except.mapError, bind, Except.bind, pure, Except.pure]

theorem decodeEvents_of_log (h : d.envelope tx = .ok e) (hlog : Log.parse? log = none) :
    d.decodeEvents tx log = .error (.log (d.notLog log)) := by
  simp only [decodeEvents, h, hlog, Except.mapError, bind, Except.bind, throw, throwThe,
    MonadExceptOf.throw]

theorem decodeEvents_of_error (h : d.envelope tx = .error source) :
    d.decodeEvents tx log = .error (.envelope source) := by
  rw [decodeEvents, h]
  rfl

/-! ## With a node -/

/-- Once gas has been read, the bytes and the log decide. -/
theorem decode_of_gas_accepted (d : Decoder) (h : raw.GasAccepted) :
    ∃ gasWanted gasUsed, d.decode raw =
      (d.content ((Log.parse? raw.execution.log).getD []) raw.tx).map fun c =>
        { value := transaction raw gasWanted gasUsed c.value, metrics := c.metrics ++ d.closing } := by
  obtain ⟨gasWanted, hwanted⟩ := gasOf_of_isSome "gas_wanted" h.1
  obtain ⟨gasUsed, hused⟩ := gasOf_of_isSome "gas_used" h.2
  refine ⟨gasWanted, gasUsed, ?_⟩
  simp only [decode_eq, hwanted, hused, bind, Except.bind]
  cases d.content ((Log.parse? raw.execution.log).getD []) raw.tx with
  | error e => rfl
  | ok c => rfl

theorem content_of_envelope (h : d.envelope tx = .ok e) (entries : List LogEntry) :
    d.content entries tx = (d.decodeFee tx).map fun fee =>
      { value := { memo := e.memo, fee, events := (d.events e entries).value }
        metrics := (d.events e entries).metrics } := by
  simp only [decodeFee_of_envelope h, content, h, bind, Except.bind]
  cases e.feeAmounts.mapError DecodeError.fee with
  | error error => rfl
  | ok fee => rfl

/-- **A transaction comes to what its fee comes to**, with the events of its messages and of the log, if
that can be read. -/
theorem decode_of_envelope (hgas : raw.GasAccepted) (h : d.envelope raw.tx = .ok e) :
    ∃ gasWanted gasUsed, d.decode raw = (d.decodeFee raw.tx).map fun fee =>
      let offline := d.events e ((Log.parse? raw.execution.log).getD [])
      { value := transaction raw gasWanted gasUsed { memo := e.memo, fee, events := offline.value }
        metrics := offline.metrics ++ d.closing } := by
  obtain ⟨gasWanted, gasUsed, hdecode⟩ := d.decode_of_gas_accepted hgas
  refine ⟨gasWanted, gasUsed, ?_⟩
  rw [hdecode, content_of_envelope h]
  cases d.decodeFee raw.tx with
  | error error => rfl
  | ok fee => rfl

/-- A transaction that nothing reads begins with the event that says why. -/
theorem decode_of_undecodable (hgas : raw.GasAccepted) (h : d.envelope raw.tx = .error source) :
    ∃ result, d.decode raw = .ok result ∧
      result.value.events.head? = some (.failure "tx" source.message) := by
  obtain ⟨gasWanted, gasUsed, hdecode⟩ := d.decode_of_gas_accepted hgas
  rw [content, h] at hdecode
  exact ⟨_, hdecode, rfl⟩

/-! ## Agreement -/

/-- What is recorded for a transaction as a whole is no record of a message. -/
theorem filter_closing (d : Decoder) (metrics : List Metric) :
    (metrics ++ d.closing).filter Metric.isFailedMessage = metrics.filter Metric.isFailedMessage := by
  have hnone : d.closing.filter Metric.isFailedMessage = [] := rfl
  rw [List.filter_append, hnone, List.append_nil]

/-- **With a node and without, the same is read, and the same is not.** Take any transaction whose gas can
be read, any generation of the chain and any encodings.

* If its bytes and its log can be read, it is decoded if and only if its fee is decoded without a node. Then
  the fees are the same, the events of the same bytes and log are the same, and the same messages are
  recorded as unknown and as broken, in the same order.
* If its bytes cannot be read, neither the fee nor events are decoded without a node, both for the reason
  that the first event of the transaction tells.
* If its bytes and its fee can be read, but not its log, no events are decoded without a node. The
  transaction then has the events that are decoded with an empty log, and one more that tells the log. -/
theorem offline_agrees (d : Decoder) (hgas : raw.GasAccepted) :
    (∀ e entries, d.envelope raw.tx = .ok e → Log.parse? raw.execution.log = some entries →
      ((∃ result, d.decode raw = .ok result) ↔ ∃ fee, d.decodeFee raw.tx = .ok fee) ∧
      ∀ result, d.decode raw = .ok result →
        d.decodeFee raw.tx = .ok result.value.fee ∧
        ∃ offline, d.decodeEvents raw.tx raw.execution.log = .ok offline ∧
          offline.value = result.value.events ∧
          offline.metrics.filter Metric.isFailedMessage =
            result.metrics.filter Metric.isFailedMessage) ∧
    (∀ source, d.envelope raw.tx = .error source →
      d.decodeFee raw.tx = .error (.envelope source) ∧
      d.decodeEvents raw.tx raw.execution.log = .error (.envelope source) ∧
      ∃ result, d.decode raw = .ok result ∧
        result.value.events.head? = some (.failure "tx" source.message)) ∧
    (∀ e fee, d.envelope raw.tx = .ok e → d.decodeFee raw.tx = .ok fee →
      Log.parse? raw.execution.log = none →
      d.decodeEvents raw.tx raw.execution.log = .error (.log (d.notLog raw.execution.log)) ∧
      ∃ result offline, d.decode raw = .ok result ∧ d.decodeEvents raw.tx "" = .ok offline ∧
        result.value.events = offline.value ++ [.failure "" raw.execution.log]) := by
  refine ⟨fun e entries he hlog => ?_, fun source hsource => ?_, fun e fee he hfee hlog => ?_⟩
  · obtain ⟨gasWanted, gasUsed, hdecode⟩ := decode_of_envelope hgas he
    rw [hlog, Option.getD_some] at hdecode
    cases hfee : d.decodeFee raw.tx with
    | error error =>
      rw [hfee] at hdecode
      refine ⟨iff_of_false ?_ nofun, fun result hresult => ?_⟩
      · rintro ⟨result, hresult⟩
        cases hdecode.symm.trans hresult
      · cases hdecode.symm.trans hresult
    | ok fee =>
      rw [hfee] at hdecode
      refine ⟨iff_of_true ⟨_, hdecode⟩ ⟨fee, rfl⟩, fun result hresult => ?_⟩
      obtain rfl := Except.ok.inj (hdecode.symm.trans hresult)
      refine ⟨rfl, d.events e entries, decodeEvents_of_envelope he hlog, ?_, ?_⟩
      · simp only [transaction, trailing_readable hlog, List.append_nil]
      · exact (d.filter_closing _).symm
  · exact ⟨decodeFee_of_error hsource, decodeEvents_of_error hsource,
      decode_of_undecodable hgas hsource⟩
  · obtain ⟨gasWanted, gasUsed, hdecode⟩ := decode_of_envelope hgas he
    rw [hlog, Option.getD_none, hfee] at hdecode
    have hempty : Log.parse? "" = some [] := rfl
    refine ⟨decodeEvents_of_log he hlog, _, d.events e [], hdecode,
      decodeEvents_of_envelope he hempty, ?_⟩
    simp only [transaction, trailing_unreadable (Log.parse?_eq_none.1 hlog)]

/-- A transfer whose log is a text. -/
theorem offline_agrees_text :
    let refusal := "expected value at line 1 column 1"
    let d : Decoder := { version := .columbus5, notLog := fun _ => refusal }
    let raw := loneSend "out of gas"
    raw.GasAccepted ∧ d.decodeEvents raw.tx raw.execution.log = .error (.log refusal) ∧
      ∃ result offline, d.decode raw = .ok result ∧ d.decodeEvents raw.tx "" = .ok offline ∧
        result.value.events = offline.value ++ [.failure "" "out of gas"] := by
  intro refusal d raw
  have hgas : raw.GasAccepted := by decide +kernel
  obtain ⟨e, he⟩ := Option.isSome_iff_exists.1
    (show (d.envelope raw.tx).toOption.isSome = true by decide +kernel)
  obtain ⟨fee, hfee⟩ := Option.isSome_iff_exists.1
    (show (d.decodeFee raw.tx).toOption.isSome = true by decide +kernel)
  have hlog : Log.parse? raw.execution.log = none := by decide +kernel
  exact ⟨hgas, (d.offline_agrees hgas).2.2 e fee (mem_toOption.1 he) (mem_toOption.1 hfee) hlog⟩

end Decoder

end ChainIndex
