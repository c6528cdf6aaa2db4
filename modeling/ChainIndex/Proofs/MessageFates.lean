import ChainIndex.Decoder
import ChainIndex.Proofs.Decimals
import ChainIndex.Proofs.Recognition

/-!
# Every message is accounted for once

A message of a transaction is mapped, unknown or broken (`Fate`). Which of them is decided by the message,
the encoding and the log entry that was found for it (`Decoder.fate`), and whether it is unknown by its
own type alone (`fate_eq_unknown`). A mapped message has its event under its number, any other one is
counted once under its labels.

* `message_eq`: what the decoder makes of a message is its fate.
* `mem_mapped`: which messages the entries of the log are compared with.
* `messages_accounted`: **the events of the messages come in their order, one each, and the failures are
  counted one by one**; to put another message in the place of one changes nothing else.
-/

namespace ChainIndex

/-- What becomes of a message. -/
inductive Fate where
  | mapped (e : Event)
  /-- Its type has no mapping. -/
  | unknown
  /-- Its type has one, and its content fails. -/
  | broken

namespace Fate

/-- The event under the number of the message. -/
def event? (number : Nat) : Fate → Option TransactionEvent
  | mapped e => some { id := toString number, kind := e.primary, sub := [e] }
  | unknown | broken => none

/-- What is counted, under the labels of the message. -/
def count? (labels : String × String) : Fate → Option Metric
  | mapped _ => none
  | unknown => some (.unknownMessage labels.1 labels.2)
  | broken => some (.brokenMessage labels.1 labels.2)

end Fate

namespace Metric

def isUnknownMessage : Metric → Bool
  | unknownMessage _ _ => true
  | _ => false

def isBrokenMessage : Metric → Bool
  | brokenMessage _ _ => true
  | _ => false

end Metric

namespace Decoder

variable (d : Decoder)

/-- The fate of a message that was executed as `entry` tells. -/
def fate (encoding : Encoding) (entry : LogEntry) (raw : RawMessage) : Fate :=
  match MessageKind.ofTag? raw.typeTag with
  | none => .unknown
  | some k =>
    if d.registry.contains k then
      match d.registry.map { encoding, log := entry } (.known k raw.payload) with
      | .ok e => .mapped e
      | .error _ => .broken
    else .unknown

/-- Neither the content of a message nor its entry makes it unknown. -/
theorem fate_eq_unknown {encoding : Encoding} {entry : LogEntry} {raw : RawMessage} :
    d.fate encoding entry raw = .unknown ↔
      ∀ k, MessageKind.ofTag? raw.typeTag = some k → k ∉ d.registry.kinds := by
  rw [fate]
  rcases MessageKind.ofTag? raw.typeTag with _ | k
  · simp
  · by_cases hcontains : d.registry.contains k = true
    · have hmem : k ∈ d.registry.kinds := List.contains_iff_mem.1 hcontains
      simp only [if_pos hcontains]
      cases d.registry.map ⟨encoding, entry⟩ (.known k raw.payload) <;> simp [hmem]
    · have hnot : k ∉ d.registry.kinds := fun hmem => hcontains (List.contains_iff_mem.2 hmem)
      simp [hcontains, hnot]

/-- **What the decoder makes of a message is its fate.** -/
theorem message_eq (encoding : Encoding) (log : List LogEntry) (number : Nat) (raw : RawMessage) :
    d.message encoding log number raw =
      match d.fate encoding (Log.find log number) raw with
      | .mapped e => .ok { id := toString number, kind := e.primary, sub := [e] }
      | .unknown => .error
          (.unknownMessage (Message.resolve raw).labels.1 (Message.resolve raw).labels.2)
      | .broken => .error
          (.brokenMessage (Message.resolve raw).labels.1 (Message.resolve raw).labels.2) := by
  unfold message fate Message.resolve
  rcases MessageKind.ofTag? raw.typeTag with _ | k
  · rfl
  · by_cases hcontains : d.registry.contains k = true
    · simp only [if_pos hcontains]
      rcases hmap : d.registry.map ⟨encoding, Log.find log number⟩ (.known k raw.payload)
        with error | e
      · have hcontent := d.registry.map_known _ hcontains raw.payload error hmap
        -- a mapped kind never reports itself as unknown, whatever is wrong inside
        simp only [hcontent, Bool.false_eq_true, if_false]
      · rfl
    · simp only [if_neg hcontains, d.registry.map_unmapped _ hcontains]
      rfl

theorem message_event (encoding : Encoding) (log : List LogEntry) (number : Nat) (raw : RawMessage) :
    (d.message encoding log number raw).toOption =
      (d.fate encoding (Log.find log number) raw).event? number := by
  rw [message_eq]
  cases d.fate encoding (Log.find log number) raw <;> rfl

/-! ## Messages by their numbers -/

/-- What `f` makes of messages that are numbered from `start` on. -/
def numbered {α : Type} (f : Nat → RawMessage → Option α) (start : Nat) (messages : List RawMessage) :
    List α :=
  (messages.zipIdx start).filterMap fun p => f p.2 p.1

section Numbered

variable {α : Type} (f : Nat → RawMessage → Option α)

theorem numbered_cons (start : Nat) (raw : RawMessage) (messages : List RawMessage) :
    numbered f start (raw :: messages) = (f start raw).toList ++ numbered f (start + 1) messages := by
  rw [numbered, List.zipIdx_cons, List.filterMap_cons]
  rcases f start raw with _ | a <;> rfl

theorem numbered_append (start : Nat) (before after : List RawMessage) :
    numbered f start (before ++ after) =
      numbered f start before ++ numbered f (start + before.length) after := by
  rw [numbered, List.zipIdx_append, List.filterMap_append]
  rfl

end Numbered

section Results

variable (encoding : Encoding) (log : List LogEntry)

def eventOf (number : Nat) (raw : RawMessage) : Option TransactionEvent :=
  (d.fate encoding (Log.find log number) raw).event? number

def countOf (number : Nat) (raw : RawMessage) : Option Metric :=
  (d.fate encoding (Log.find log number) raw).count? (Message.resolve raw).labels

/-- The events are in the order of the messages' numbers. -/
theorem numbered_eventOf (messages : List RawMessage) : ∀ start, ∃ numbers : List Nat,
    numbers.Pairwise (· < ·) ∧ (∀ i ∈ numbers, start ≤ i) ∧
      (numbered (d.eventOf encoding log) start messages).map (·.id) = numbers.map toString := by
  induction messages with
  | nil => exact fun _ => ⟨[], .nil, fun _ h => absurd h List.not_mem_nil, rfl⟩
  | cons raw messages ih =>
    intro start
    obtain ⟨numbers, hordered, hfrom, hids⟩ := ih (start + 1)
    rw [numbered_cons, List.map_append, hids, eventOf]
    cases d.fate encoding (Log.find log start) raw with
    | mapped e =>
      -- its number is below those of all messages after it
      refine ⟨start :: numbers, .cons (fun i hi => hfrom i hi) hordered, ?_, rfl⟩
      intro i hi
      rcases List.mem_cons.1 hi with rfl | hi
      · exact Nat.le_refl _
      · exact Nat.le_of_succ_le (hfrom i hi)
    | unknown | broken =>
      exact ⟨numbers, hordered, fun i hi => Nat.le_of_succ_le (hfrom i hi), rfl⟩

theorem filter_numbered_of_lt {i start : Nat} (h : i < start) (messages : List RawMessage) :
    (numbered (d.eventOf encoding log) start messages).filter (·.id == toString i) = [] := by
  obtain ⟨numbers, -, hfrom, hids⟩ := d.numbered_eventOf encoding log messages start
  rw [List.filter_eq_nil_iff]
  intro event hevent hid
  obtain ⟨n, hn, heq⟩ := List.mem_map.1 (hids ▸ List.mem_map_of_mem hevent)
  have hsame : n = i := Text.toString_inj (heq.trans (eq_of_beq hid))
  exact Nat.not_le.2 h (hsame ▸ hfrom n hn)

/-- A message that is mapped has one event under its number, any other none. -/
theorem filter_numbered (messages : List RawMessage) : ∀ start i,
    (numbered (d.eventOf encoding log) start messages).filter (·.id == toString (start + i)) =
      (messages[i]?.bind (d.eventOf encoding log (start + i))).toList := by
  induction messages with
  | nil => exact fun _ _ => rfl
  | cons raw messages ih =>
    intro start i
    rw [numbered_cons, List.filter_append]
    cases i with
    | zero =>
      rw [Nat.add_zero, d.filter_numbered_of_lt encoding log (Nat.lt_succ_self start),
        List.append_nil, List.getElem?_cons_zero, Option.bind_some, eventOf]
      cases d.fate encoding (Log.find log start) raw <;> simp [Fate.event?]
    | succ i =>
      have hne : toString start ≠ toString (start + (i + 1)) := fun h => by
        have hsame := Text.toString_inj h
        omega
      have hhead : (d.eventOf encoding log start raw).toList.filter
          (·.id == toString (start + (i + 1))) = [] := by
        rw [eventOf]
        cases d.fate encoding (Log.find log start) raw with
        | mapped e => exact List.filter_cons_of_neg fun h => hne (eq_of_beq h)
        | unknown | broken => rfl
      have hrest := ih (start + 1) i
      rw [Nat.add_assoc, Nat.add_comm 1 i] at hrest
      rw [hhead, List.nil_append, hrest, List.getElem?_cons_succ]

/-- Every message is mapped, or counted as unknown, or counted as broken. -/
theorem length_numbered (messages : List RawMessage) : ∀ start,
    (numbered (d.eventOf encoding log) start messages).length +
        (numbered (d.countOf encoding log) start messages).countP Metric.isUnknownMessage +
        (numbered (d.countOf encoding log) start messages).countP Metric.isBrokenMessage =
      messages.length := by
  induction messages with
  | nil => exact fun _ => rfl
  | cons raw messages ih =>
    intro start
    have hrest := ih (start + 1)
    rw [numbered_cons, numbered_cons, List.length_append, List.countP_append, List.countP_append,
      List.length_cons, eventOf, countOf]
    cases d.fate encoding (Log.find log start) raw <;>
      simp [Fate.event?, Fate.count?, Metric.isUnknownMessage, Metric.isBrokenMessage] <;> omega

end Results

/-! ## The events of a transaction -/

variable (e : Envelope) (log : List LogEntry)

/-- The events of the log entries that are left. -/
def told : List TransactionEvent :=
  (unclaimed log (mapped (d.messages e log))).map LogEntry.toEvent

theorem told_sublist : (d.told e log).Sublist (log.map LogEntry.toEvent) :=
  List.filter_sublist.map _

theorem events_value :
    (d.events e log).value = numbered (d.eventOf e.encoding log) 0 e.messages ++ d.told e log := by
  rw [events, messages, List.filterMap_map]
  refine congrArg (· ++ _) (congrFun (congrArg List.filterMap (funext fun p => ?_)) _)
  exact d.message_event e.encoding log p.2 p.1

theorem events_metrics :
    (d.events e log).metrics = numbered (d.countOf e.encoding log) 0 e.messages := by
  dsimp only [events]
  rw [messages, List.filterMap_map]
  refine congrFun (congrArg List.filterMap (funext fun p => ?_)) _
  dsimp only [Function.comp_apply]
  rw [message_eq, countOf]
  cases d.fate e.encoding (Log.find log p.2) p.1 <;> rfl

theorem getElem?_messages (i : Nat) :
    (d.messages e log)[i]? = e.messages[i]?.map fun raw => d.message e.encoding log i raw := by
  rw [messages, List.getElem?_map, List.getElem?_zipIdx, Option.map_map, Nat.zero_add]
  rfl

/-- The messages that have an event. -/
theorem mem_mapped {i : Nat} :
    i ∈ mapped (d.messages e log) ↔
      ∃ raw event, e.messages[i]? = some raw ∧
        d.fate e.encoding (Log.find log i) raw = .mapped event := by
  have hok : ∀ raw, (d.message e.encoding log i raw).isOk = true ↔
      ∃ event, d.fate e.encoding (Log.find log i) raw = .mapped event := by
    intro raw
    rw [message_eq]
    cases d.fate e.encoding (Log.find log i) raw <;> simp [Except.isOk, Except.toBool]
  simp only [mapped, List.mem_filterMap, Prod.exists, List.mk_mem_zipIdx_iff_getElem?,
    getElem?_messages, Option.map_eq_some_iff]
  constructor
  · rintro ⟨r, j, ⟨raw, hraw, rfl⟩, hj⟩
    obtain ⟨hisOk, heq⟩ := Option.ite_none_right_eq_some.1 hj
    cases heq
    obtain ⟨event, hevent⟩ := (hok raw).1 hisOk
    exact ⟨raw, event, hraw, hevent⟩
  · rintro ⟨raw, event, hraw, hevent⟩
    exact ⟨_, i, ⟨raw, hraw, rfl⟩, if_pos ((hok raw).2 ⟨event, hevent⟩)⟩

/-- **Every message is accounted for once.** Whatever kinds are mapped, and whatever the messages and the
log are: before the events of the log come the events of the messages in the order of their numbers, one
for each message that is mapped and none for any other; of each of the others its fate is counted once,
under its labels; and these are all the messages. Unknown are those whose own type is not mapped. To put
any other message in the place of one changes its own event and count, and none of the rest. -/
theorem messages_accounted :
    (∀ entry raw, d.fate e.encoding entry raw = .unknown ↔
      ∀ k, MessageKind.ofTag? raw.typeTag = some k → k ∉ d.registry.kinds) ∧
    (∃ own told, ∃ numbers : List Nat, (d.events e log).value = own ++ told ∧
      told.Sublist (log.map LogEntry.toEvent) ∧
      numbers.Pairwise (· < ·) ∧ own.map (·.id) = numbers.map toString ∧
      (∀ i, own.filter (·.id == toString i) = (e.messages[i]?.bind fun raw =>
        (d.fate e.encoding (Log.find log i) raw).event? i).toList) ∧
      (d.events e log).metrics = (e.messages.zipIdx.filterMap fun p =>
        (d.fate e.encoding (Log.find log p.2) p.1).count? (Message.resolve p.1).labels) ∧
      own.length + (d.events e log).metrics.countP Metric.isUnknownMessage +
        (d.events e log).metrics.countP Metric.isBrokenMessage = e.messages.length) ∧
    ∀ before after, ∃ front back counts counts', ∀ raw,
      let replaced := d.events { e with messages := before ++ raw :: after } log
      let fate := d.fate e.encoding (Log.find log before.length) raw
      (∃ told, replaced.value = front ++ (fate.event? before.length).toList ++ back ++ told ∧
        told.Sublist (log.map LogEntry.toEvent)) ∧
      replaced.metrics = counts ++ (fate.count? (Message.resolve raw).labels).toList ++ counts' := by
  refine ⟨fun _ _ => d.fate_eq_unknown, ?_, fun before after => ?_⟩
  · obtain ⟨numbers, hordered, -, hids⟩ := d.numbered_eventOf e.encoding log e.messages 0
    refine ⟨_, _, numbers, d.events_value e log, d.told_sublist e log, hordered, hids, fun i => ?_,
      d.events_metrics e log, ?_⟩
    · have hfilter := d.filter_numbered e.encoding log e.messages 0 i
      rwa [Nat.zero_add] at hfilter
    · rw [events_metrics]
      exact d.length_numbered e.encoding log e.messages 0
  · refine ⟨numbered (d.eventOf e.encoding log) 0 before,
      numbered (d.eventOf e.encoding log) (before.length + 1) after,
      numbered (d.countOf e.encoding log) 0 before,
      numbered (d.countOf e.encoding log) (before.length + 1) after, fun raw =>
      ⟨⟨d.told { e with messages := before ++ raw :: after } log, ?_, d.told_sublist _ log⟩, ?_⟩⟩
    · rw [events_value, numbered_append, numbered_cons, Nat.zero_add, ← List.append_assoc]
      rfl
    · rw [events_metrics, numbered_append, numbered_cons, Nat.zero_add, ← List.append_assoc]
      rfl

/-- An unknown message in a wrapper breaks the wrapper; on its own it is unknown. -/
example :
    let unknown : Protobuf.Packed := { typeUrl := "/cosmos.feegrant.v1beta1.MsgGrantAllowance" }
    let wrapper : Message.Authorization.Execute :=
      { grantee := Text.Utf8.encode "terra1grantee"
        messages := [Protobuf.Packed.layout.write unknown] }
    (Decoder.events {}
      { messages := [
          ⟨unknown.typeUrl, []⟩,
          ⟨"/cosmos.authz.v1beta1.MsgExec", Message.Authorization.Execute.layout.write wrapper⟩]
        encoding := .proto } []).metrics =
      [.unknownMessage unknown.typeUrl "unknown", .brokenMessage "exec_delegated" "msgauth"] := by
  decide +kernel

end Decoder

end ChainIndex
