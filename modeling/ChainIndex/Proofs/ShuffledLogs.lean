import ChainIndex.Proofs.LogEntries
import Mathlib.Data.List.Perm.Basic

/-!
# The order of the entries of a complete log

A log is complete if it has one entry for each number below its length. Then an entry is found by its
number alone, wherever it stands (`Log.Complete.find_eq`), and a message past the end of the log finds none
in any order. So the messages come to the same, and the same numbers are left for the events of the log.

* `Log.Complete.find_perm`: two orders of the same entries are the same to look up in.
* `Decoder.filter_told_of_unmapped`: an entry whose message is not mapped is told exactly once.
* `Decoder.shuffled_entries`: **the order of the entries decides nothing but the order in which those are
  told that no message accounts for.**
-/

namespace ChainIndex

variable {log log' : List LogEntry} {entry : LogEntry}

namespace Log

/-- A log with one entry for each number below its length, in any order. -/
def Complete (log : List LogEntry) : Prop :=
  (log.map (·.index.toNat)).Perm (List.range log.length)

namespace Complete

theorem perm (h : Complete log) (hperm : log'.Perm log) : Complete log' := by
  unfold Complete
  rw [hperm.length_eq]
  exact (hperm.map _).trans h

theorem nodup (h : Complete log) : (log.map (·.index)).Nodup := by
  have hnumbers : (log.map (·.index.toNat)).Nodup := h.nodup_iff.2 List.nodup_range
  have hmap : log.map (·.index.toNat) = (log.map (·.index)).map UInt64.toNat := by
    rw [List.map_map]
    rfl
  rw [hmap] at hnumbers
  exact hnumbers.of_map _

theorem lt_length (h : Complete log) (hentry : entry ∈ log) : entry.index.toNat < log.length := by
  have hmem : entry.index.toNat ∈ log.map (·.index.toNat) := List.mem_map_of_mem hentry
  exact List.mem_range.1 (h.subset hmem)

theorem exists_entry (h : Complete log) {i : Nat} (hi : i < log.length) :
    ∃ entry ∈ log, entry.index.toNat = i := by
  have hmem : i ∈ log.map (·.index.toNat) := h.symm.subset (List.mem_range.2 hi)
  exact List.mem_map.1 hmem

/-- **An entry is found by its number**, wherever it stands. -/
theorem find_eq (h : Complete log) (hentry : entry ∈ log) : find log entry.index.toNat = entry :=
  find_of_mem h.nodup hentry (h.lt_length hentry)

/-- Two orders of the same entries are the same to look up in. -/
theorem find_perm (h : Complete log) (hperm : log'.Perm log) (i : Nat) : find log' i = find log i := by
  rcases Nat.lt_or_ge i log.length with hi | hi
  · obtain ⟨entry, hentry, rfl⟩ := h.exists_entry hi
    rw [h.find_eq hentry, (h.perm hperm).find_eq (hperm.symm.subset hentry)]
  · have hi' : log'.length ≤ i := by
      rw [hperm.length_eq]
      exact hi
    rw [find_of_length_le hi, find_of_length_le hi']

/-- There is no other entry with the same number. -/
theorem filter_index (h : Complete log) (hentry : entry ∈ log) :
    log.filter (fun x => x.index.toNat = entry.index.toNat) = [entry] := by
  have hnodup : log.Nodup := h.nodup.of_map _
  have hsame : ∀ x ∈ log, decide (x.index.toNat = entry.index.toNat) = (x == entry) := by
    intro x hx
    rw [Bool.eq_iff_iff, decide_eq_true_eq, beq_iff_eq]
    constructor
    · intro hindex
      exact List.inj_on_of_nodup_map h.nodup hx hentry (UInt64.toNat_inj.1 hindex)
    · rintro rfl
      rfl
  rw [List.filter_congr hsame, List.filter_beq, List.count_eq_one_of_mem hnodup hentry]
  rfl

end Complete

end Log

/-- What the decoder makes of a message with this number and these labels. -/
def Fate.result (number : Nat) (labels : String × String) : Fate → Except Metric TransactionEvent
  | mapped e => .ok { id := toString number, kind := e.primary, sub := [e] }
  | unknown => .error (.unknownMessage labels.1 labels.2)
  | broken => .error (.brokenMessage labels.1 labels.2)

namespace Decoder

variable (d : Decoder) (e : Envelope)

theorem message_result (encoding : Encoding) (log : List LogEntry) (number : Nat) (raw : RawMessage) :
    d.message encoding log number raw =
      (d.fate encoding (Log.find log number) raw).result number (Message.resolve raw).labels := by
  rw [message_eq]
  cases d.fate encoding (Log.find log number) raw <;> rfl

/-- A message looks at the log through its own entry alone. -/
theorem messages_congr (h : ∀ i, Log.find log' i = Log.find log i) :
    d.messages e log' = d.messages e log := by
  unfold messages
  refine List.map_congr_left ?_
  rintro ⟨raw, number⟩ _
  show d.message _ log' number raw = d.message _ log number raw
  rw [message_result, message_result, h]

theorem told_perm (hmessages : d.messages e log' = d.messages e log) (hperm : log'.Perm log) :
    (d.told e log').Perm (d.told e log) := by
  unfold told
  rw [hmessages]
  exact (hperm.filter _).map _

/-- What is told under a number are the entries with that number that are left. -/
theorem filter_told_index (number : Nat) :
    (d.told e log).filter (·.id == toString number) =
      ((log.filter fun x => x.index.toNat = number).filter
        fun x => !(mapped (d.messages e log)).contains x.index.toNat).map LogEntry.toEvent := by
  rw [told, unclaimed, List.filter_map, List.filter_filter, List.filter_filter]
  refine congrArg (List.map LogEntry.toEvent) (List.filter_congr fun x _ => ?_)
  have hid : (x.toEvent.id == toString number) = decide (x.index.toNat = number) := by
    rw [Bool.eq_iff_iff, beq_iff_eq, decide_eq_true_eq]
    constructor
    · intro h
      exact Text.toString_inj h
    · rintro rfl
      rfl
  simp only [Function.comp_apply, hid]
  exact Bool.and_comm _ _

variable {d e}

theorem not_mem_mapped_iff (hcomplete : Log.Complete log) (hentry : entry ∈ log) :
    entry.index.toNat ∉ mapped (d.messages e log) ↔
      ∀ raw event, e.messages[entry.index.toNat]? = some raw →
        d.fate e.encoding entry raw ≠ .mapped event := by
  rw [mem_mapped, hcomplete.find_eq hentry]
  simp only [not_exists, not_and, ne_eq]

/-- **An entry that no mapped message uses is told exactly once.** -/
theorem filter_told_of_unmapped (hcomplete : Log.Complete log) (hentry : entry ∈ log)
    (h : entry.index.toNat ∉ mapped (d.messages e log)) :
    (d.told e log).filter (·.id == toString entry.index.toNat) = [entry.toEvent] := by
  rw [filter_told_index, hcomplete.filter_index hentry]
  simp [h]

/-- An entry that a mapped message uses is not told. -/
theorem filter_told_of_mapped (hcomplete : Log.Complete log) (hentry : entry ∈ log)
    (h : entry.index.toNat ∈ mapped (d.messages e log)) :
    (d.told e log).filter (·.id == toString entry.index.toNat) = [] := by
  rw [filter_told_index, hcomplete.filter_index hentry]
  simp [h]

theorem getElem?_messages_of_mem (hcomplete : Log.Complete log) (hentry : entry ∈ log) :
    (d.messages e log)[entry.index.toNat]? = e.messages[entry.index.toNat]?.map fun raw =>
      (d.fate e.encoding entry raw).result entry.index.toNat (Message.resolve raw).labels := by
  rw [getElem?_messages]
  refine congrArg (fun f => Option.map f _) (funext fun raw => ?_)
  rw [message_result, hcomplete.find_eq hentry]

/-- **The order of the entries of a complete log does not matter.** The log has an entry for each number
below its length, whatever the transaction and the kinds that are mapped. In any other order of its entries
the messages come to the same, each with the same event or the same count, and the events of the log that
follow are the same in another order. A message is mapped with the entry that has its number. That entry is
told by an event of its own exactly if the message is not mapped, or there is none, and by one only. -/
theorem shuffled_entries (d : Decoder) (e : Envelope) (hcomplete : Log.Complete log) :
    let own := (d.messages e log).filterMap Except.toOption
    (d.events e log).value = own ++ d.told e log ∧
    (∀ log', log'.Perm log →
      d.messages e log' = d.messages e log ∧
      (d.events e log').value = own ++ d.told e log' ∧
      (d.events e log').metrics = (d.events e log).metrics ∧
      (d.told e log').Perm (d.told e log)) ∧
    ∀ i < log.length, ∃ entry ∈ log, entry.index.toNat = i ∧
      Log.find log i = entry ∧
      ((d.messages e log)[i]? = e.messages[i]?.map fun raw =>
        (d.fate e.encoding entry raw).result i (Message.resolve raw).labels) ∧
      ((∃ raw event, e.messages[i]? = some raw ∧ d.fate e.encoding entry raw = .mapped event) →
        (d.told e log).filter (·.id == toString i) = []) ∧
      ((∀ raw event, e.messages[i]? = some raw → d.fate e.encoding entry raw ≠ .mapped event) →
        (d.told e log).filter (·.id == toString i) = [entry.toEvent]) := by
  intro own
  refine ⟨rfl, fun log' hperm => ?_, fun i hi => ?_⟩
  · have hmessages : d.messages e log' = d.messages e log :=
      d.messages_congr e (hcomplete.find_perm hperm)
    have hown : (d.messages e log').filterMap Except.toOption = own := by
      rw [hmessages]
    have hvalue : (d.events e log').value =
        (d.messages e log').filterMap Except.toOption ++ d.told e log' := rfl
    refine ⟨hmessages, ?_, ?_, d.told_perm e hmessages hperm⟩
    · rw [hvalue, hown]
    · rw [events, events, hmessages]
  · obtain ⟨entry, hentry, rfl⟩ := hcomplete.exists_entry hi
    have hfind := hcomplete.find_eq hentry
    refine ⟨entry, hentry, rfl, hfind, getElem?_messages_of_mem hcomplete hentry, fun hmapped => ?_,
      fun hunmapped => ?_⟩
    · refine filter_told_of_mapped hcomplete hentry ((d.mem_mapped e log).2 ?_)
      rw [hfind]
      exact hmapped
    · exact filter_told_of_unmapped hcomplete hentry
        ((not_mem_mapped_iff hcomplete hentry).2 hunmapped)

/-- One message, and the entries of the log the wrong way round. -/
theorem shuffled_entries_swapped :
    let second : LogEntry := { index := 1, success := true }
    let log : List LogEntry := [second, { index := 0, success := true }]
    let send : Message.Bank.Send := { amount := [⟨"uusd", "5"⟩] }
    let raw : RawMessage :=
      ⟨"/cosmos.bank.v1beta1.MsgSend", Message.Bank.Send.layout.write send⟩
    let e : Envelope := { messages := [raw], encoding := .proto }
    Log.Complete log ∧ messages {} e log.reverse = messages {} e log ∧
      (told {} e log).filter (·.id == toString 1) = [second.toEvent] := by
  intro second log send raw e
  have hcomplete : Log.Complete log := by
    unfold Log.Complete
    decide
  obtain ⟨_, hshuffled, hentries⟩ := shuffled_entries {} e hcomplete
  obtain ⟨entry, _, _, hfind, _, _, htold⟩ := hentries 1 (by decide)
  have hsecond : entry = second := by
    rw [← hfind]
    rfl
  have hnone : e.messages[1]? = none := rfl
  refine ⟨hcomplete, (hshuffled log.reverse (List.reverse_perm log)).1, ?_⟩
  rw [← hsecond]
  refine htold fun raw event hraw => ?_
  rw [hnone] at hraw
  exact absurd hraw (by simp)

end Decoder

end ChainIndex
