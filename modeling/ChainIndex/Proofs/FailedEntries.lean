import ChainIndex.Proofs.DecodeOutcome
import ChainIndex.Proofs.LogEntries
import ChainIndex.Proofs.SilentMappings

/-!
# Who tells that a message failed

A failed entry tells its error where it becomes an event of its own (`LogEntry.toEvent_tells`), and it does
so unless the message with its number is mapped. A mapped message is told by its mapping alone, which is
silent: the entry then only lends it what it transferred.

* `Decoder.events_mapped`: the event of a mapped message is the only one with its number.
* `Decoder.failed_entries`: **an entry that failed is told with its error exactly if no message with its
  number is mapped.**
-/

namespace ChainIndex

/-- The event has the number of the entry, and the error of the entry stands on its first part. -/
def LogEntry.ToldBy (entry : LogEntry) (event : TransactionEvent) : Prop :=
  event.id = toString entry.index.toNat ∧
    ∃ first rest, event.sub = first :: rest ∧ first.error = some entry.error.message

/-- An event of the log has no error of its own, so the mark is that of the entry. -/
theorem Event.markFirst_told (message : String) (events : List LogEvent) :
    ∃ first rest, Event.markFirst message (events.map LogEvent.toEvent) = first :: rest ∧
      first.error = some message := by
  cases events with
  | nil => exact ⟨_, [], rfl, rfl⟩
  | cons e es => exact ⟨_, es.map LogEvent.toEvent, rfl, rfl⟩

theorem LogEntry.toEvent_tells {entry : LogEntry} (h : entry.success = false) :
    entry.ToldBy entry.toEvent := by
  refine ⟨rfl, ?_⟩
  simp only [LogEntry.toEvent, h, Bool.false_eq_true, if_false]
  exact Event.markFirst_told _ _

namespace Decoder

variable (d : Decoder)

/-- The transaction can be read, and its message with this number is mapped to this event. -/
def Maps (tx : String) (log : List LogEntry) (number : Nat) (event : Event) : Prop :=
  ∃ e raw, d.envelope tx = .ok e ∧ e.messages[number]? = some raw ∧
    d.fate e.encoding (Log.find log number) raw = .mapped event

variable {d} {tx : String} {log : List LogEntry} {number : Nat} {event : Event}

theorem fate_silent {encoding : Encoding} {entry : LogEntry} {raw : RawMessage}
    (h : d.fate encoding entry raw = .mapped event) : event.Silent := by
  unfold fate at h
  cases hkind : MessageKind.ofTag? raw.typeTag with
  | none => simp [hkind] at h
  | some k =>
    simp only [hkind] at h
    split at h
    · cases hmap : d.registry.map ⟨encoding, entry⟩ (.known k raw.payload) with
      | error error => simp [hmap] at h
      | ok mapped =>
        simp only [hmap, Fate.mapped.injEq] at h
        exact h ▸ d.registry.map_silent _ hmap
    · cases h

theorem Maps.silent (h : d.Maps tx log number event) : event.Silent := by
  obtain ⟨e, raw, -, -, hfate⟩ := h
  exact fate_silent hfate

theorem exists_maps_iff {e : Envelope} (henvelope : d.envelope tx = .ok e) :
    (∃ event, d.Maps tx log number event) ↔ number ∈ mapped (d.messages e log) := by
  rw [Decoder.mem_mapped]
  constructor
  · rintro ⟨event, e', raw, he', hraw, hfate⟩
    cases henvelope.symm.trans he'
    exact ⟨raw, event, hraw, hfate⟩
  · rintro ⟨raw, event, hraw, hfate⟩
    exact ⟨event, e, raw, henvelope, hraw, hfate⟩

/-- No entry is told under the number of a mapped message. -/
theorem filter_told (e : Envelope) (h : number ∈ mapped (d.messages e log)) :
    (d.told e log).filter (·.id == toString number) = [] := by
  rw [List.filter_eq_nil_iff]
  intro told htold hid
  obtain ⟨entry, hentry, rfl⟩ := List.mem_map.1 htold
  have hindex : entry.index.toNat = number := Text.toString_inj (eq_of_beq hid)
  have hnot : entry.index.toNat ∉ mapped (d.messages e log) := by
    simpa using (List.mem_filter.1 hentry).2
  exact hnot (hindex ▸ h)

/-- The event of a mapped message is the only one with its number. -/
theorem events_mapped {e : Envelope} (henvelope : d.envelope tx = .ok e)
    (h : d.Maps tx log number event) :
    (d.events e log).value.filter (·.id == toString number) =
      [{ id := toString number, kind := event.primary, sub := [event] }] := by
  have hmapped := (exists_maps_iff henvelope).1 ⟨event, h⟩
  obtain ⟨e', raw, he', hraw, hfate⟩ := h
  cases henvelope.symm.trans he'
  have hown := d.filter_numbered e.encoding log e.messages 0 number
  rw [Nat.zero_add, hraw, Option.bind_some, eventOf, hfate] at hown
  rw [events_value, List.filter_append, hown, filter_told e hmapped, List.append_nil]
  rfl

/-- **An entry that failed is told with its error exactly if no message with its number is mapped.** It is so
told if the transaction cannot be read, if it has no such message, and if the message is unknown or broken.
A message that is mapped is told once, without any error at any depth. -/
theorem failed_entries {raw : RawTransaction} {entries : List LogEntry}
    {result : Measured Transaction} {entry : LogEntry}
    (hlog : Log.parse? raw.execution.log = some entries) (hdecode : d.decode raw = .ok result)
    (hentry : entry ∈ entries) (hfailed : entry.success = false) :
    let number := entry.index.toNat
    ((∀ event, ¬ d.Maps raw.tx entries number event) →
      ∃ told ∈ result.value.events, entry.ToldBy told) ∧
    ∀ event, d.Maps raw.tx entries number event → event.Silent ∧
      result.value.events.filter (·.id == toString number) =
        [{ id := toString number, kind := event.primary, sub := [event] }] := by
  intro number
  have htold := d.told_of_decode hdecode
  cases henvelope : d.envelope raw.tx with
  | error source =>
    -- every entry becomes an event of its own
    obtain ⟨-, hevents, -⟩ := htold.undecodable _ (undecodable_of_envelope henvelope)
    refine ⟨fun _ => ⟨entry.toEvent, ?_, entry.toEvent_tells hfailed⟩, ?_⟩
    · rw [hevents entries hlog]
      exact List.mem_cons_of_mem _ (List.mem_map_of_mem hentry)
    · rintro event ⟨e, -, he, -⟩
      cases henvelope.symm.trans he
  | ok e =>
    have hdecodable : ∀ text, ¬ d.Undecodable raw.tx text := by
      intro text hundecodable
      obtain ⟨source, hsource, -⟩ := hundecodable.envelope
      cases henvelope.symm.trans hsource
    obtain ⟨e', he', -, hevents, -⟩ := htold.decodable hdecodable
    cases henvelope.symm.trans he'
    -- the entry becomes an event of its own just if its number is not among the mapped ones
    rw [(hevents entries hlog).1]
    refine ⟨fun hnone => ⟨entry.toEvent, ?_, entry.toEvent_tells hfailed⟩, fun event hmaps =>
      ⟨hmaps.silent, events_mapped henvelope hmaps⟩⟩
    have hunmapped : number ∉ mapped (d.messages e entries) := by
      rw [← exists_maps_iff henvelope]
      rintro ⟨event, hmaps⟩
      exact hnone event hmaps
    exact (d.told_suffix e).subset ((d.toEvent_mem_told e hentry).2 hunmapped)

theorem mem_toOption {ε α : Type} {x : Except ε α} {a : α} : a ∈ x.toOption ↔ x = .ok a := by
  cases x <;> simp [Except.toOption]

/-- A transaction with one message, an empty transfer, that was executed with this log. -/
def loneSend (log : String) : RawTransaction where
  tx := "CiAKHgocL2Nvc21vcy5iYW5rLnYxYmV0YTEuTXNnU2VuZA=="
  execution := { log, gasWanted := "1", gasUsed := "1" }

/-- Two entries for one message. The second entry has no message, and its error is told. -/
theorem failed_entries_second :
    let d : Decoder := { version := .columbus5 }
    let raw :=
      loneSend "[\x7b\"log\":\"no funds\"\x7d,\x7b\"msg_index\":1,\"log\":\"out of gas\"\x7d]"
    let second : LogEntry := { index := 1, error := { message := "out of gas" } }
    ∃ result, d.decode raw = .ok result ∧ ∃ told ∈ result.value.events, second.ToldBy told := by
  intro d raw second
  let first : LogEntry := { error := { message := "no funds" } }
  have hlog : Log.parse? raw.execution.log = some [first, second] := by decide +kernel
  obtain ⟨result, hresult⟩ := Option.isSome_iff_exists.1
    (show (d.decode raw).toOption.isSome = true by decide +kernel)
  have hdecode := mem_toOption.1 hresult
  have hcount : ∀ e ∈ (d.envelope raw.tx).toOption, e.messages.length = 1 := by decide +kernel
  -- there is no message with the number one
  have hnone : ∀ event, ¬ d.Maps raw.tx [first, second] second.index.toNat event := by
    rintro event ⟨e, m, he, hm, -⟩
    have hlt : 1 < e.messages.length := (List.getElem?_eq_some_iff.1 hm).1
    rw [hcount e (mem_toOption.2 he)] at hlt
    exact absurd hlt (Nat.lt_irrefl 1)
  have hsecond : second ∈ [first, second] := List.mem_cons_of_mem _ List.mem_cons_self
  exact ⟨result, hdecode, (failed_entries hlog hdecode hsecond rfl).1 hnone⟩

/-- The transfer failed. It is mapped, and told like one that went well. -/
theorem failed_send_unmarked :
    let d : Decoder := { version := .columbus5 }
    let raw := loneSend "[\x7b\"log\":\"insufficient funds\"\x7d]"
    let entry : LogEntry := { error := { message := "insufficient funds" } }
    Log.parse? raw.execution.log = some [entry] ∧ entry.success = false ∧
      entry.error.message ≠ "" ∧
      ∃ result ∈ (d.decode raw).toOption, result.value.events.map (·.id) = ["0"] ∧
        ¬ ∃ told ∈ result.value.events, told.id = toString entry.index.toNat ∧
          ∃ part ∈ told.sub, part.error = some entry.error.message := by
  decide +kernel

end Decoder

end ChainIndex
