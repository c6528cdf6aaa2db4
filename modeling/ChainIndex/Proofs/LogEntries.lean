import ChainIndex.Proofs.MessageFates
import Mathlib.Data.List.Nodup

/-!
# What becomes of the entries of a log

A message looks for its entry by place and then by number; an entry becomes an event of its own unless
the message with its number is mapped. The two rules agree for the numbers below the length of the log. A
message past the end is mapped with the empty entry even where the log has an entry for it, and
that entry is left out.

* `Log.find_of_mem`: an entry is found wherever it stands, if its number is below the length of the log.
* `Decoder.toEvent_mem_told`: which entries become events of their own.
* `Decoder.accounted_iff`: **which entries are accounted for.**
-/

namespace ChainIndex

namespace Log

variable {log : List LogEntry} {entry : LogEntry}

theorem find_of_length_le {i : Nat} (h : log.length ≤ i) : find log i = {} := by
  rw [find, List.getElem?_eq_none h]

/-- Entries with different numbers may stand in any order. -/
theorem find_of_mem (hdistinct : (log.map (·.index)).Nodup) (hentry : entry ∈ log)
    (h : entry.index.toNat < log.length) : find log entry.index.toNat = entry := by
  have hsame {other : LogEntry} (hother : other ∈ log)
      (hindex : other.index.toNat = entry.index.toNat) : other = entry :=
    List.inj_on_of_nodup_map hdistinct hother hentry (UInt64.toNat_inj.1 hindex)
  rw [find, List.getElem?_eq_getElem h]
  by_cases hplace : log[entry.index.toNat].index.toNat = entry.index.toNat
  · simp only [if_pos hplace]
    exact hsame (List.getElem_mem h) hplace
  · -- another entry stands in its place, so it is looked for, and it is there
    simp only [if_neg hplace]
    rcases hfound : log.find? fun e => e.index.toNat = entry.index.toNat with _ | other
    · exact absurd (decide_eq_true rfl) (List.find?_eq_none.1 hfound entry hentry)
    · have hindex : other.index.toNat = entry.index.toNat := by
        simpa using List.find?_some hfound
      rw [hfound]
      exact hsame (List.mem_of_find?_eq_some hfound) hindex

end Log

namespace Decoder

variable (d : Decoder) (e : Envelope) {log : List LogEntry} {entry : LogEntry}

theorem told_suffix : d.told e log <:+ (d.events e log).value := by
  rw [events_value]
  exact List.suffix_append _ _

/-- The number of an entry alone decides whether it becomes an event. -/
theorem toEvent_mem_told (hentry : entry ∈ log) :
    entry.toEvent ∈ d.told e log ↔ entry.index.toNat ∉ mapped (d.messages e log) := by
  constructor
  · intro htold
    obtain ⟨other, hother, hevent⟩ := List.mem_map.1 htold
    have hindex : other.index.toNat = entry.index.toNat :=
      Text.toString_inj (congrArg TransactionEvent.id hevent)
    simpa [hindex] using (List.mem_filter.1 hother).2
  · intro hmapped
    exact List.mem_map_of_mem (List.mem_filter.2 ⟨hentry, by simpa using hmapped⟩)

/-- The event of a mapped message is told. -/
theorem event_mem_events {i : Nat} {raw : RawMessage} {event : TransactionEvent}
    (hraw : e.messages[i]? = some raw) (hevent : d.eventOf e.encoding log i raw = some event) :
    event ∈ (d.events e log).value := by
  rw [events_value, numbered]
  exact List.mem_append_left _
    (List.mem_filterMap.2 ⟨(raw, i), List.mk_mem_zipIdx_iff_getElem?.2 hraw, hevent⟩)

/-- An entry is accounted for by an event that is made from it alone, or by the event of the message with
its number, if that message was mapped with this very entry. -/
def Accounted (log : List LogEntry) (entry : LogEntry) : Prop :=
  entry.toEvent ∈ d.told e log ∨
    Log.find log entry.index.toNat = entry ∧
      ∃ raw event, e.messages[entry.index.toNat]? = some raw ∧
        (d.fate e.encoding entry raw).event? entry.index.toNat = some event ∧
        event ∈ (d.events e log).value

/-- **Which entries are accounted for.** Among entries with different numbers, in any order, it is every
one but those past the end of the log whose message is mapped without them. Such a message has the empty
entry, and its own entry gets no event either. -/
theorem accounted_iff (hdistinct : (log.map (·.index)).Nodup) (hentry : entry ∈ log) :
    let number := entry.index.toNat
    (Log.find log number = if number < log.length then entry else {}) ∧
    d.told e log <:+ (d.events e log).value ∧
    (d.Accounted e log entry ↔
      (number < log.length ∨ ∀ raw event, e.messages[number]? = some raw →
        d.fate e.encoding {} raw ≠ .mapped event)) := by
  intro number
  have hfind : Log.find log number = if number < log.length then entry else {} := by
    by_cases hlt : number < log.length
    · rw [if_pos hlt, Log.find_of_mem hdistinct hentry hlt]
    · rw [if_neg hlt, Log.find_of_length_le (Nat.not_lt.1 hlt)]
  refine ⟨hfind, d.told_suffix e, ?_⟩
  by_cases hlt : number < log.length
  · -- the message has this very entry, so either of the two tells it
    refine iff_of_true ?_ (.inl hlt)
    rw [if_pos hlt] at hfind
    by_cases hmapped : number ∈ mapped (d.messages e log)
    · obtain ⟨raw, event, hraw, hfate⟩ := (d.mem_mapped e log).1 hmapped
      have hevent : d.eventOf e.encoding log number raw = (Fate.mapped event).event? number := by
        rw [eventOf, hfate]
      rw [hfind] at hfate
      exact .inr ⟨hfind, raw, _, hraw, congrArg (Fate.event? number) hfate,
        d.event_mem_events e hraw hevent⟩
    · exact .inl ((d.toEvent_mem_told e hentry).2 hmapped)
  · rw [if_neg hlt] at hfind
    -- the log is not empty, so a number past its end is not that of the empty entry
    have hother : Log.find log number ≠ entry := by
      intro hsame
      have hzero : number = 0 := congrArg (fun e : LogEntry => e.index.toNat) (hsame.symm.trans hfind)
      exact hlt (hzero ▸ List.length_pos_of_mem hentry)
    have htold : d.Accounted e log entry ↔ number ∉ mapped (d.messages e log) := by
      rw [Accounted, d.toEvent_mem_told e hentry]
      exact or_iff_left fun h => hother h.1
    rw [htold, or_iff_right hlt, mem_mapped, hfind]
    simp only [not_exists, not_and, ne_eq]

/-- Two messages, and the entry of the second before that of the first. -/
theorem accounted_iff_swapped :
    let transfer : LogEvent :=
      { kind := "transfer", attributes := { recipient := ["terra1to"], amount := ["5uusd"] } }
    let second : LogEntry := { index := 1, success := true, events := [transfer] }
    let log : List LogEntry := [second, { index := 0, success := true }]
    let send : Message.Bank.Send := { amount := [⟨"uusd", "5"⟩] }
    let raw : RawMessage :=
      ⟨"/cosmos.bank.v1beta1.MsgSend", Message.Bank.Send.layout.write send⟩
    (log.map (·.index)).Nodup ∧ second ∈ log ∧
      Accounted {} { messages := [raw, raw], encoding := .proto } log second := by
  intro transfer second log send raw
  have hdistinct : (log.map (·.index)).Nodup := by decide
  have hentry : second ∈ log := List.mem_cons_self
  exact ⟨hdistinct, hentry, (accounted_iff _ _ hdistinct hentry).2.2.2 (.inl (by decide))⟩

/-- The entry of the second message alone. Both messages are mapped, and nothing tells the entry. -/
theorem shifted_entry_lost :
    let transfer : LogEvent :=
      { kind := "transfer", attributes := { recipient := ["terra1to"], amount := ["5uusd"] } }
    let second : LogEntry := { index := 1, success := true, events := [transfer] }
    let send : Message.Bank.Send := { amount := [⟨"uusd", "5"⟩] }
    let raw : RawMessage :=
      ⟨"/cosmos.bank.v1beta1.MsgSend", Message.Bank.Send.layout.write send⟩
    let events := events {} { messages := [raw, raw], encoding := .proto } [second]
    events.value.map (·.id) = ["0", "1"] ∧ second.toEvent ∉ events.value ∧
      Log.find [second] 1 ≠ second := by
  intro transfer second send raw events
  refine ⟨by decide +kernel, fun htold => ?_, by decide⟩
  have hkind : second.toEvent.kind ∈ events.value.map (·.kind) := List.mem_map_of_mem htold
  revert hkind
  decide +kernel

end Decoder

end ChainIndex
