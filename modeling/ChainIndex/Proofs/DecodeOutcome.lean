import ChainIndex.Proofs.MessageFates
import ChainIndex.Proofs.Refusals
import Mathlib.Data.List.Forall2

/-!
# What comes of decoding a transaction

Gas that cannot be read, and a fee that cannot be read in an envelope that can, fail the whole transaction
(`Rejected`). They do so before anything is recorded. What else fails is told: a transaction that nothing
reads (`Undecodable`) by its first event and a log that is not readable by its last one, each beside
everything that the other part tells.

* `undecodable_iff`: the texts that have no envelope are those that every permitted attempt refuses.
* `record_eq`: to decode step by step, with a journal, gives the result and records its metrics at once.
* `decode_outcome`: **when a transaction fails, and what is told and counted of one that does not.**
-/

namespace ChainIndex

namespace Log

/-- A text that is neither blank nor a list of entries. -/
def Unreadable (raw : String) : Prop :=
  Text.allBlank raw = false ∧
    ∀ items, Json.parse? raw = some (.array items) → items.mapM LogEntry.shape.read = none

theorem parse?_eq_none {raw : String} : parse? raw = none ↔ Unreadable raw := by
  unfold parse? Unreadable
  cases Text.allBlank raw with
  | true => simp
  | false =>
    rcases Json.parse? raw with _ | ⟨_ | _ | _ | _ | _ | _ | _⟩ <;> simp

end Log

namespace Metric

def isDecoded : Metric → Bool
  | decoded _ => true
  | _ => false

end Metric

/-- No message is counted under the labels of an envelope. -/
theorem MessageKind.route_ne_tx (k : MessageKind) : k.route ≠ "tx" := by
  cases k <;> decide

theorem Amount.parse_error_iff (text currency : String) :
    (∃ error, parse text currency = .error error) ↔ ∃ error, parseDecimal text = .error error := by
  simp only [parse, bind, Except.bind]
  cases parseDecimal text <;> simp [pure, Except.pure]

/-- The fee cannot be read if one of its amounts cannot. -/
theorem Envelope.feeAmounts_error_iff (e : Envelope) :
    (∃ error, e.feeAmounts = .error error) ↔
      ∃ coin ∈ e.fee, ∃ error, Amount.parseDecimal coin.amount = .error error := by
  unfold feeAmounts
  induction e.fee with
  | nil => exact iff_of_false nofun nofun
  | cons coin coins ih =>
    rw [List.exists_mem_cons_iff, ← ih, ← Amount.parse_error_iff coin.amount coin.denom,
      List.mapM_cons]
    cases Amount.parse coin.amount coin.denom with
    | error error => exact iff_of_true ⟨error, rfl⟩ (.inl ⟨error, rfl⟩)
    | ok amount =>
      cases coins.mapM fun c => Amount.parse c.amount c.denom with
      | error error => exact iff_of_true ⟨error, rfl⟩ (.inr ⟨error, rfl⟩)
      | ok amounts => exact iff_of_false nofun (by rintro (⟨_, h⟩ | ⟨_, h⟩) <;> cases h)

theorem gasOf_error_iff (field value : String) :
    (∃ error, gasOf field value = .error error) ↔ Text.word64? (Text.trimmed value) = none := by
  unfold gasOf
  cases Text.word64? (Text.trimmed value) <;> simp

namespace Decoder

variable (d : Decoder)

/-! ## Envelopes -/

/-- The encodings that are tried, in this order. -/
def attempts : List Encoding :=
  d.version.primary :: if d.fallback then [d.version.secondary] else []

/-- No permitted attempt reads the text as a transaction. The second text names each of them. -/
inductive Undecodable (tx : String) : String → Prop where
  | notBase64 (h : Text.Base64.decode? (Text.trimmed tx) = none) :
    Undecodable tx ("transaction is not base64: " ++ d.notBase64 (Text.trimmed tx))
  | refused {bytes : Wire.Bytes} {texts : List String}
    (hbytes : Text.Base64.decode? (Text.trimmed tx) = some bytes)
    (hrefused : List.Forall₂ (Envelope.Fails bytes) d.attempts texts) :
    Undecodable tx ("; ".intercalate texts)

variable {d} {tx : String}

theorem attempts_of_fallback (h : d.fallback = true) :
    d.attempts = [d.version.primary, d.version.secondary] := by
  rw [attempts, h]
  rfl

theorem attempts_of_no_fallback (h : d.fallback = false) : d.attempts = [d.version.primary] := by
  rw [attempts, h]
  rfl

theorem Undecodable.envelope {text : String} (h : d.Undecodable tx text) :
    ∃ source, d.envelope tx = .error source ∧ source.message = text := by
  obtain hbase64 | ⟨hbytes, hrefused⟩ := h
  · exact ⟨.notBase64 _, by rw [Decoder.envelope, hbase64], rfl⟩
  · cases hfallback : d.fallback with
    | false =>
      rw [attempts_of_no_fallback hfallback] at hrefused
      obtain _ | ⟨hfirst, _ | _⟩ := hrefused
      obtain ⟨first, hprimary, rfl⟩ := Envelope.fails_iff.1 hfirst
      exact ⟨.refused first none, by simp [Decoder.envelope, hbytes, hprimary, hfallback], rfl⟩
    | true =>
      rw [attempts_of_fallback hfallback] at hrefused
      obtain _ | ⟨hfirst, _ | ⟨hsecond, _ | _⟩⟩ := hrefused
      obtain ⟨first, hprimary, rfl⟩ := Envelope.fails_iff.1 hfirst
      obtain ⟨second, hsecondary, rfl⟩ := Envelope.fails_iff.1 hsecond
      refine ⟨.refused first (some second), ?_, rfl⟩
      simp only [Decoder.envelope, hbytes, hprimary, hfallback, hsecondary, if_true]
      rfl

theorem undecodable_of_envelope {source : UnreadableTx} (h : d.envelope tx = .error source) :
    d.Undecodable tx source.message := by
  rw [envelope] at h
  cases hbytes : Text.Base64.decode? (Text.trimmed tx) with
  | none =>
    rw [hbytes] at h
    cases h
    exact .notBase64 hbytes
  | some bytes =>
    simp only [hbytes] at h
    cases hfirst : Envelope.decode bytes d.version.primary with
    | ok e => simp [hfirst] at h
    | error first =>
      simp only [hfirst] at h
      cases hfallback : d.fallback with
      | false =>
        simp only [hfallback] at h
        cases h
        have hrefused : List.Forall₂ (Envelope.Fails bytes) d.attempts [first.message] := by
          rw [attempts_of_no_fallback hfallback]
          exact .cons (Envelope.fails_iff.2 ⟨first, hfirst, rfl⟩) .nil
        exact .refused hbytes hrefused
      | true =>
        cases hsecond : Envelope.decode bytes d.version.secondary with
        | ok e => simp [hfallback, hsecond, Except.mapError] at h
        | error second =>
          simp only [hfallback, hsecond] at h
          cases h
          have hrefused :
              List.Forall₂ (Envelope.Fails bytes) d.attempts [first.message, second.message] := by
            rw [attempts_of_fallback hfallback]
            exact .cons (Envelope.fails_iff.2 ⟨first, hfirst, rfl⟩)
              (.cons (Envelope.fails_iff.2 ⟨second, hsecond, rfl⟩) .nil)
          exact .refused hbytes hrefused

theorem undecodable_iff {text : String} :
    d.Undecodable tx text ↔ ∃ source, d.envelope tx = .error source ∧ source.message = text := by
  refine ⟨Undecodable.envelope, ?_⟩
  rintro ⟨source, h, rfl⟩
  exact undecodable_of_envelope h

/-! ## The parts of a decoding -/

/-- What the bytes and the log of a transaction tell together. -/
structure Content where
  memo : String := ""
  fee : List Amount := []
  events : List TransactionEvent

variable (d)

def content (entries : List LogEntry) (tx : String) : Except DecodeError (Measured Content) :=
  match d.envelope tx with
  | .ok envelope => do
    let fee ← envelope.feeAmounts.mapError .fee
    let events := d.events envelope entries
    return { value := { memo := envelope.memo, fee, events := events.value }
             metrics := events.metrics }
  | .error e => .ok {
      value := { events := .failure "tx" e.message :: entries.map LogEntry.toEvent }
      metrics := [.brokenMessage "envelope" "tx"] }

/-- A log that is not readable is told after everything else. -/
def trailing (log : String) : List TransactionEvent :=
  if (Log.parse? log).isNone then [.failure "" log] else []

def transaction (raw : RawTransaction) (gasWanted gasUsed : UInt64) (c : Content) : Transaction where
  hash := raw.hash
  height := (Text.word64? raw.height).getD 0
  memo := c.memo
  gasWanted := gasWanted
  gasUsed := gasUsed
  fee := c.fee
  raw := raw.tx
  rawLog := raw.execution.log
  events := c.events ++ trailing raw.execution.log

def closing : List Metric :=
  [.decoded d.version, .conversion "transaction"]

theorem decode_eq (raw : RawTransaction) :
    d.decode raw = do
      let gasWanted ← gasOf "gas_wanted" raw.execution.gasWanted
      let gasUsed ← gasOf "gas_used" raw.execution.gasUsed
      let content ← d.content ((Log.parse? raw.execution.log).getD []) raw.tx
      return { value := transaction raw gasWanted gasUsed content.value
               metrics := content.metrics ++ d.closing } := by
  simp only [decode, content, bind, Except.bind]
  cases gasOf "gas_wanted" raw.execution.gasWanted with
  | error e => rfl
  | ok gasWanted =>
    cases gasOf "gas_used" raw.execution.gasUsed with
    | error e => rfl
    | ok gasUsed =>
      cases d.envelope raw.tx with
      | error e => rfl
      | ok envelope =>
        simp only
        cases envelope.feeAmounts.mapError DecodeError.fee with
        | error e => rfl
        | ok fee => rfl

/-! ## Step by step -/

/-- A computation with a journal. What it has recorded stays where it fails. -/
abbrev Recording := ExceptT DecodeError (StateM (List Metric))

namespace Recording

variable {α β : Type} {x : Recording α} {f : α → Recording β} {journal journal' : List Metric}

/-- How a computation that finds this journal ends, and the journal that it leaves. -/
def ending (x : Recording α) (journal : List Metric) : Except DecodeError α × List Metric :=
  Id.run (StateT.run (ExceptT.run x) journal)

def note (m : Metric) : Recording Unit :=
  modify (· ++ [m])

theorem bind_ok {a : α} (h : x.ending journal = (.ok a, journal')) :
    (x >>= f).ending journal = (f a).ending journal' := by
  unfold ending at *
  rw [ExceptT.run_bind, StateT.run_bind]
  simp only [Id.run_bind, h]

theorem bind_error {e : DecodeError} (h : x.ending journal = (.error e, journal')) :
    (x >>= f).ending journal = (.error e, journal') := by
  unfold ending at *
  rw [ExceptT.run_bind, StateT.run_bind]
  simp only [Id.run_bind, h]
  rfl

@[simp]
theorem ending_pure (a : α) : (pure a : Recording α).ending journal = (.ok a, journal) :=
  rfl

@[simp]
theorem ending_note (m : Metric) : (note m).ending journal = (.ok (), journal ++ [m]) :=
  rfl

@[simp]
theorem ending_ofExcept (r : Except DecodeError α) :
    (MonadExcept.ofExcept r : Recording α).ending journal = (r, journal) := by
  cases r <;> rfl

end Recording

/-- The messages one after the other, and each failure where it happens. -/
def recordMessages (encoding : Encoding) (log : List LogEntry) :
    Nat → List RawMessage → Recording (List TransactionEvent)
  | _, [] => pure []
  | number, raw :: rest =>
    match d.message encoding log number raw with
    | .ok event => do return event :: (← recordMessages encoding log (number + 1) rest)
    | .error metric => do
      Recording.note metric
      recordMessages encoding log (number + 1) rest

theorem recordMessages_ending (encoding : Encoding) (log : List LogEntry)
    (messages : List RawMessage) : ∀ number journal,
    (d.recordMessages encoding log number messages).ending journal =
      (.ok (numbered (d.eventOf encoding log) number messages),
        journal ++ numbered (d.countOf encoding log) number messages) := by
  induction messages with
  | nil =>
    intro number journal
    simp [recordMessages, numbered]
  | cons raw rest ih =>
    intro number journal
    rw [numbered_cons, numbered_cons, recordMessages, message_eq, eventOf, countOf]
    cases d.fate encoding (Log.find log number) raw with
    | mapped e => exact Recording.bind_ok (ih (number + 1) journal)
    | unknown | broken =>
      refine (Recording.bind_ok (Recording.ending_note _)).trans ?_
      rw [ih, List.append_assoc]
      rfl

def recordContent (entries : List LogEntry) (tx : String) : Recording Content :=
  match d.envelope tx with
  | .ok envelope => do
    let fee ← MonadExcept.ofExcept (envelope.feeAmounts.mapError .fee)
    let events ← d.recordMessages envelope.encoding entries 0 envelope.messages
    return { memo := envelope.memo, fee, events := events ++ d.told envelope entries }
  | .error e => do
    Recording.note (.brokenMessage "envelope" "tx")
    return { events := .failure "tx" e.message :: entries.map LogEntry.toEvent }

theorem recordContent_ending (entries : List LogEntry) (tx : String) (journal : List Metric) :
    (d.recordContent entries tx).ending journal = match d.content entries tx with
      | .error e => (.error e, journal)
      | .ok c => (.ok c.value, journal ++ c.metrics) := by
  unfold recordContent content
  cases d.envelope tx with
  | error e => rfl
  | ok envelope =>
    simp only
    cases envelope.feeAmounts.mapError DecodeError.fee with
    | error e => rfl
    | ok fee =>
      refine (Recording.bind_ok (Recording.ending_ofExcept _)).trans ?_
      refine (Recording.bind_ok (d.recordMessages_ending _ _ _ _ _)).trans ?_
      rw [Recording.ending_pure, ← events_metrics, ← events_value]
      rfl

/-- The decoding of a transaction, with every metric recorded where it arises. -/
def record (raw : RawTransaction) : Recording Transaction := do
  let gasWanted ← MonadExcept.ofExcept (gasOf "gas_wanted" raw.execution.gasWanted)
  let gasUsed ← MonadExcept.ofExcept (gasOf "gas_used" raw.execution.gasUsed)
  let content ← d.recordContent ((Log.parse? raw.execution.log).getD []) raw.tx
  Recording.note (.decoded d.version)
  Recording.note (.conversion "transaction")
  return transaction raw gasWanted gasUsed content

/-- Step by step nothing is recorded for a transaction that fails, and otherwise the metrics of the result
are, in their order. -/
theorem record_eq (raw : RawTransaction) (journal : List Metric) :
    (d.record raw).ending journal = match d.decode raw with
      | .error e => (.error e, journal)
      | .ok result => (.ok result.value, journal ++ result.metrics) := by
  rw [decode_eq, record]
  cases gasOf "gas_wanted" raw.execution.gasWanted with
  | error e => rfl
  | ok gasWanted =>
    refine (Recording.bind_ok (Recording.ending_ofExcept _)).trans ?_
    cases gasOf "gas_used" raw.execution.gasUsed with
    | error e => rfl
    | ok gasUsed =>
      refine (Recording.bind_ok (Recording.ending_ofExcept _)).trans ?_
      have hcontent := d.recordContent_ending ((Log.parse? raw.execution.log).getD []) raw.tx journal
      cases hc : d.content ((Log.parse? raw.execution.log).getD []) raw.tx with
      | error e =>
        rw [hc] at hcontent
        exact Recording.bind_error hcontent
      | ok c =>
        -- only now the transaction itself is counted
        rw [hc] at hcontent
        refine (Recording.bind_ok hcontent).trans ?_
        show (_, journal ++ c.metrics ++ [_] ++ [_]) = (_, journal ++ (c.metrics ++ [_, _]))
        simp only [List.append_assoc, List.cons_append, List.nil_append]

/-! ## The outcome -/

/-- Gas cannot be read, or a fee cannot although its envelope can. -/
def Rejected (raw : RawTransaction) : Prop :=
  Text.word64? (Text.trimmed raw.execution.gasWanted) = none ∨
    Text.word64? (Text.trimmed raw.execution.gasUsed) = none ∨
    ∃ envelope, d.envelope raw.tx = .ok envelope ∧
      ∃ coin ∈ envelope.fee, ∃ error, Amount.parseDecimal coin.amount = .error error

theorem content_error_iff (entries : List LogEntry) (tx : String) :
    (∃ error, d.content entries tx = .error error) ↔
      ∃ envelope, d.envelope tx = .ok envelope ∧
        ∃ coin ∈ envelope.fee, ∃ error, Amount.parseDecimal coin.amount = .error error := by
  simp only [content, bind, Except.bind]
  cases d.envelope tx with
  | error e => simp
  | ok envelope =>
    simp only [Except.ok.injEq, exists_eq_left', ← Envelope.feeAmounts_error_iff]
    cases envelope.feeAmounts with
    | error e => simp [Except.mapError]
    | ok fee => simp [Except.mapError, pure, Except.pure]

theorem decode_error_iff (raw : RawTransaction) :
    (∃ error, d.decode raw = .error error) ↔ d.Rejected raw := by
  rw [decode_eq, Rejected, ← gasOf_error_iff "gas_wanted", ← gasOf_error_iff "gas_used",
    ← d.content_error_iff ((Log.parse? raw.execution.log).getD [])]
  simp only [bind, Except.bind]
  cases gasOf "gas_wanted" raw.execution.gasWanted with
  | error e => simp
  | ok gasWanted =>
    cases gasOf "gas_used" raw.execution.gasUsed with
    | error e => simp
    | ok gasUsed =>
      cases d.content ((Log.parse? raw.execution.log).getD []) raw.tx with
      | error e => simp
      | ok c => simp [pure, Except.pure]

/-- What is told and counted of a transaction that is decoded. -/
structure Told (raw : RawTransaction) (result : Measured Transaction) : Prop where
  hash : result.value.hash = raw.hash
  bytes : result.value.raw = raw.tx
  rawLog : result.value.rawLog = raw.execution.log
  decoded : result.metrics.filter Metric.isDecoded = [.decoded d.version]
  /-- That nothing reads the bytes is told first, then everything that the log tells. -/
  undecodable : ∀ text, d.Undecodable raw.tx text →
    result.metrics.count (.brokenMessage "envelope" "tx") = 1 ∧
    (∀ entries, Log.parse? raw.execution.log = some entries →
      result.value.events = .failure "tx" text :: entries.map LogEntry.toEvent) ∧
    (Log.Unreadable raw.execution.log →
      result.value.events = [.failure "tx" text, .failure "" raw.execution.log])
  /-- With a readable log every event has a number, so none stands for a failure to read. Otherwise all
  messages are mapped with the empty entry, and the log is told last. -/
  decodable : (∀ text, ¬ d.Undecodable raw.tx text) → ∃ envelope, d.envelope raw.tx = .ok envelope ∧
    result.metrics.count (.brokenMessage "envelope" "tx") = 0 ∧
    (∀ entries, Log.parse? raw.execution.log = some entries →
      result.value.events = (d.events envelope entries).value ∧
        ∀ event ∈ result.value.events, event.id ≠ "") ∧
    (Log.Unreadable raw.execution.log →
      result.value.events =
        numbered (fun number r => (d.fate envelope.encoding {} r).event? number) 0 envelope.messages ++
          [.failure "" raw.execution.log])

theorem trailing_readable {log : String} {entries : List LogEntry} (h : Log.parse? log = some entries) :
    trailing log = [] := by
  rw [trailing, h]
  rfl

theorem trailing_unreadable {log : String} (h : Log.Unreadable log) :
    trailing log = [.failure "" log] := by
  rw [trailing, Log.parse?_eq_none.2 h]
  rfl

/-- The counts of messages are neither that of the transaction nor that of an envelope. -/
theorem countOf_other {encoding : Encoding} {log : List LogEntry} {number : Nat} {raw : RawMessage}
    {m : Metric} (h : d.countOf encoding log number raw = some m) :
    m.isDecoded = false ∧ m ≠ .brokenMessage "envelope" "tx" := by
  rw [countOf] at h
  cases hfate : d.fate encoding (Log.find log number) raw with
  | mapped e => simp [hfate, Fate.count?] at h
  | unknown =>
    rw [hfate] at h
    cases h
    exact ⟨rfl, by simp⟩
  | broken =>
    -- a broken message has the labels of its kind
    rw [hfate] at h
    cases h
    refine ⟨rfl, fun hlabels => ?_⟩
    cases hkind : MessageKind.ofTag? raw.typeTag with
    | none => simp [fate, hkind] at hfate
    | some k =>
      simp only [Message.resolve, hkind, Message.labels, Metric.brokenMessage.injEq] at hlabels
      exact k.route_ne_tx hlabels.2

theorem id_ne_empty (e : Envelope) (log : List LogEntry) {event : TransactionEvent}
    (h : event ∈ (d.events e log).value) : event.id ≠ "" := by
  rw [events_value] at h
  rcases List.mem_append.1 h with hown | htold
  · obtain ⟨numbers, -, -, hids⟩ := d.numbered_eventOf e.encoding log e.messages 0
    obtain ⟨number, -, hid⟩ := List.mem_map.1 (hids ▸ List.mem_map_of_mem hown)
    exact hid ▸ Text.toString_ne_empty number
  · obtain ⟨entry, -, rfl⟩ := List.mem_map.1 htold
    exact Text.toString_ne_empty _

theorem filter_isDecoded (e : Envelope) (log : List LogEntry) :
    ((d.events e log).metrics ++ d.closing).filter Metric.isDecoded = [.decoded d.version] := by
  have hnone : (d.events e log).metrics.filter Metric.isDecoded = [] := by
    rw [events_metrics, List.filter_eq_nil_iff]
    intro m hm
    obtain ⟨p, -, hp⟩ := List.mem_filterMap.1 hm
    simp [(d.countOf_other hp).1]
  rw [List.filter_append, hnone]
  rfl

theorem count_envelope (e : Envelope) (log : List LogEntry) :
    ((d.events e log).metrics ++ d.closing).count (.brokenMessage "envelope" "tx") = 0 := by
  rw [List.count_eq_zero, List.mem_append, not_or, events_metrics]
  refine ⟨fun hm => ?_, by simp [closing]⟩
  obtain ⟨p, -, hp⟩ := List.mem_filterMap.1 hm
  exact (d.countOf_other hp).2 rfl

/-- Without entries every message is mapped with the empty one. -/
theorem events_nil (e : Envelope) :
    (d.events e []).value =
      numbered (fun number raw => (d.fate e.encoding {} raw).event? number) 0 e.messages := by
  rw [events_value, told]
  exact List.append_nil _

theorem told_of_content {raw : RawTransaction} {gasWanted gasUsed : UInt64} {c : Measured Content}
    (h : d.content ((Log.parse? raw.execution.log).getD []) raw.tx = .ok c) :
    d.Told raw { value := transaction raw gasWanted gasUsed c.value
                 metrics := c.metrics ++ d.closing } := by
  cases henvelope : d.envelope raw.tx with
  | error source =>
    -- only one text says why, that of the failure itself
    have hundecodable := undecodable_of_envelope henvelope
    simp only [content, henvelope, Except.ok.injEq] at h
    subst h
    refine ⟨rfl, rfl, rfl, rfl, fun text htext => ?_, fun hnone => absurd hundecodable (hnone _)⟩
    obtain ⟨source', hsource', rfl⟩ := undecodable_iff.1 htext
    cases henvelope.symm.trans hsource'
    refine ⟨rfl, fun entries hentries => ?_, fun hlog => ?_⟩
    · simp only [transaction, trailing_readable hentries, hentries, Option.getD_some, List.append_nil]
    · simp only [transaction, trailing_unreadable hlog, Log.parse?_eq_none.2 hlog]
      rfl
  | ok envelope =>
    simp only [content, henvelope] at h
    obtain ⟨fee, -, h⟩ := of_bind_ok h
    obtain rfl := Except.ok.inj h
    refine ⟨rfl, rfl, rfl, d.filter_isDecoded _ _, fun text htext => ?_, fun _ =>
      ⟨envelope, henvelope, d.count_envelope _ _, fun entries hentries => ?_, fun hlog => ?_⟩⟩
    · obtain ⟨source, hsource, -⟩ := undecodable_iff.1 htext
      cases henvelope.symm.trans hsource
    · simp only [transaction, trailing_readable hentries, hentries, Option.getD_some,
        List.append_nil, true_and]
      exact fun event => d.id_ne_empty envelope entries
    · simp only [transaction, trailing_unreadable hlog, Log.parse?_eq_none.2 hlog,
        Option.getD_none, d.events_nil]

theorem told_of_decode {raw : RawTransaction} {result : Measured Transaction}
    (h : d.decode raw = .ok result) : d.Told raw result := by
  rw [decode_eq] at h
  obtain ⟨gasWanted, -, h⟩ := of_bind_ok h
  obtain ⟨gasUsed, -, h⟩ := of_bind_ok h
  obtain ⟨c, hcontent, h⟩ := of_bind_ok h
  obtain rfl := Except.ok.inj h
  exact d.told_of_content hcontent

/-- **When a transaction fails, and what is told otherwise.** It fails exactly if gas cannot be read, or a
fee in an envelope that can, and then nothing has been recorded. Otherwise it is counted once, and whatever
else cannot be read is told among its events. -/
theorem decode_outcome (raw : RawTransaction) (journal : List Metric) :
    match d.decode raw with
    | .error error => d.Rejected raw ∧ (d.record raw).ending journal = (.error error, journal)
    | .ok result => ¬ d.Rejected raw ∧
        (d.record raw).ending journal = (.ok result.value, journal ++ result.metrics) ∧
        d.Told raw result := by
  have hrejected := d.decode_error_iff raw
  have hrecord := d.record_eq raw journal
  cases hdecode : d.decode raw with
  | error error =>
    rw [hdecode] at hrejected hrecord
    exact ⟨hrejected.1 ⟨error, rfl⟩, hrecord⟩
  | ok result =>
    rw [hdecode] at hrejected hrecord
    refine ⟨fun h => ?_, hrecord, d.told_of_decode hdecode⟩
    obtain ⟨error, herror⟩ := hrejected.2 h
    cases herror

/-- Neither the bytes nor the log can be read, and both are told. -/
example :
    let raw : RawTransaction :=
      { tx := "?", execution := { log := "out of gas", gasWanted := " 7", gasUsed := "+7 " } }
    let d : Decoder := { notBase64 := fun _ => "Invalid input length: 1" }
    (d.decode raw).toOption.map (fun r => r.value.events.map fun e =>
      (e.kind, e.sub.map fun s => (s.module, s.error))) =
      some [("error", [("tx", some "transaction is not base64: Invalid input length: 1")]),
        ("error", [("", some "out of gas")])] ∧
    (d.decode raw).toOption.map Measured.metrics = some
      [.brokenMessage "envelope" "tx", .decoded .columbus4, .conversion "transaction"] := by
  decide +kernel

end Decoder

end ChainIndex
