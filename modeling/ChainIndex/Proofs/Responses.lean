import ChainIndex.Indexer
import Mathlib.Data.List.Basic

/-!
# The responses of a task

Whatever a request asks for, whatever the source replies and whichever responses the sink refuses, the
responses that the sink takes form one numbered sequence. A sink that notes what it takes
(`Sink.noting`) behaves like the sink itself (`respond_noting`), so its notes are the responses taken.

* `send_sent`, `sendAll_sent`: one payload, or many, extend the numbered payloads (`Sending.Sent`); a
  refused one leaves them as they are.
* `respond_replied`: every result is sent as some of its payloads and at most one closing response.
* `handle_contract`: **the contract of a task**, over all requests, sources and sinks.
-/

namespace ChainIndex

variable {ρ σ : Type}

/-- The same sink, which notes the responses that it takes. -/
def Sink.noting (k : Sink ρ) : Sink (ρ × List TaskResponse) where
  accept r s :=
    match k.accept r s.1 with
    | (.ok (), t) => (.ok (), t, s.2 ++ [r])
    | (.error e, t) => (.error e, t, s.2)

namespace Sending

variable (k : Sink ρ)

/-- The sending without its notes. -/
def plain (s : Sending (ρ × List TaskResponse)) : Sending ρ :=
  { id := s.id, sent := s.sent, sink := s.sink.1, journal := s.journal }

/-- The responses to payloads that are sent first. -/
def numbered (id : TaskId) (ps : List Payload) : List TaskResponse :=
  ps.mapIdx fun i p => { id, type := p.typeName, order := UInt64.ofNat i, payload := p.json }

/-- So far exactly these payloads were taken, and they were counted. -/
structure Sent (id : TaskId) (ps : List Payload) (s : Sending (ρ × List TaskResponse)) : Prop where
  id_eq : s.id = id
  sent_eq : s.sent = UInt64.ofNat ps.length
  taken_eq : s.sink.2 = numbered id ps

theorem offer_noting (s : Sending (ρ × List TaskResponse)) (r : TaskResponse) (name : String) :
    s.plain.offer k r name =
      ((s.offer k.noting r name).1, (s.offer k.noting r name).2.plain) := by
  simp only [offer, Sink.noting, plain]
  rcases k.accept r s.sink.1 with ⟨o, t⟩
  cases o <;> rfl

/-- A response that is offered is noted if it is taken. -/
theorem offer_taken (s : Sending (ρ × List TaskResponse)) (r : TaskResponse) (name : String) :
    ((s.offer k.noting r name).1 = .ok () ∧ (s.offer k.noting r name).2.sink.2 = s.sink.2 ++ [r] ∨
      (∃ e, (s.offer k.noting r name).1 = .error e) ∧
        (s.offer k.noting r name).2.sink.2 = s.sink.2) ∧
    (s.offer k.noting r name).2.id = s.id ∧ (s.offer k.noting r name).2.sent = s.sent := by
  simp only [offer, Sink.noting]
  rcases k.accept r s.sink.1 with ⟨o, t⟩
  cases o with
  | ok u => exact ⟨.inl ⟨rfl, rfl⟩, rfl, rfl⟩
  | error e => exact ⟨.inr ⟨⟨e, rfl⟩, rfl⟩, rfl, rfl⟩

theorem numbered_append (id : TaskId) (ps : List Payload) (p : Payload) :
    numbered id (ps ++ [p]) = numbered id ps ++
      [{ id, type := p.typeName, order := UInt64.ofNat ps.length, payload := p.json }] := by
  simp [numbered, List.mapIdx_append]

/-- **A payload that is taken gets the next number**; one that is refused changes nothing. -/
theorem send_sent {id : TaskId} {ps : List Payload} {s : Sending (ρ × List TaskResponse)}
    (h : Sent id ps s) (p : Payload) :
    (s.send k.noting p).1 = .ok () ∧ Sent id (ps ++ [p]) (s.send k.noting p).2 ∨
      (∃ e, (s.send k.noting p).1 = .error e) ∧ Sent id ps (s.send k.noting p).2 := by
  obtain ⟨hid, hsent, htaken⟩ := h
  set r : TaskResponse := { id := s.id, type := p.typeName, order := s.sent, payload := p.json }
  obtain ⟨hcases, hid', hsent'⟩ := offer_taken k s r p.typeName
  rw [send]
  rcases ho : s.offer k.noting r p.typeName with ⟨o, s'⟩
  rw [ho] at hcases hid' hsent'
  -- the count goes up only if the sink has taken the response
  rcases hcases with ⟨rfl, htaken'⟩ | ⟨⟨e, rfl⟩, htaken'⟩
  · refine .inl ⟨rfl, hid'.trans hid, ?_, ?_⟩
    · show s'.sent + 1 = _
      rw [hsent', hsent, List.length_append, List.length_singleton, UInt64.ofNat_add]
      rfl
    · rw [numbered_append, ← htaken, ← hsent, ← hid]
      exact htaken'
  · exact .inr ⟨⟨e, rfl⟩, hid'.trans hid, hsent'.trans hsent, htaken'.trans htaken⟩

/-- **Many payloads are taken up to the first one that is refused.** -/
theorem sendAll_sent {id : TaskId} (qs : List Payload) :
    ∀ {ps : List Payload} {s : Sending (ρ × List TaskResponse)}, Sent id ps s →
      ∃ n, n ≤ qs.length ∧ Sent id (ps ++ qs.take n) (s.sendAll k.noting qs).2 ∧
        ((s.sendAll k.noting qs).1 = .ok () ∧ n = qs.length ∨
          ∃ e, (s.sendAll k.noting qs).1 = .error e) := by
  induction qs with
  | nil =>
    intro ps s h
    exact ⟨0, Nat.le_refl _, by simpa [sendAll] using h, .inl ⟨rfl, rfl⟩⟩
  | cons q qs ih =>
    intro ps s h
    rw [sendAll]
    rcases hs : s.send k.noting q with ⟨o, s'⟩
    have hsend := send_sent k h q
    rw [hs] at hsend
    -- after a refusal nothing more is sent
    rcases hsend with ⟨rfl, h'⟩ | ⟨⟨e, rfl⟩, h'⟩
    · obtain ⟨n, hn, htaken, hout⟩ := ih h'
      refine ⟨n + 1, Nat.succ_le_succ hn, ?_, ?_⟩
      · simpa using htaken
      · rcases hout with ⟨ho, rfl⟩ | he
        · exact .inl ⟨ho, rfl⟩
        · exact .inr he
    · exact ⟨0, Nat.zero_le _, by simpa using h', .inr ⟨e, rfl⟩⟩

/-! ## Noting changes nothing else -/

theorem send_noting (s : Sending (ρ × List TaskResponse)) (p : Payload) :
    s.plain.send k p = ((s.send k.noting p).1, (s.send k.noting p).2.plain) := by
  simp only [send]
  have h := offer_noting k s { id := s.id, type := p.typeName, order := s.sent, payload := p.json }
    p.typeName
  simp only [plain] at h ⊢
  rw [h]
  rcases s.offer k.noting _ p.typeName with ⟨o, s'⟩
  cases o <;> rfl

theorem sendAll_noting (qs : List Payload) :
    ∀ s : Sending (ρ × List TaskResponse),
      s.plain.sendAll k qs = ((s.sendAll k.noting qs).1, (s.sendAll k.noting qs).2.plain) := by
  induction qs with
  | nil => intro s; rfl
  | cons q qs ih =>
    intro s
    rw [sendAll, sendAll, send_noting]
    rcases s.send k.noting q with ⟨o, s'⟩
    cases o with
    | ok u => exact ih s'
    | error e => rfl

end Sending

/-- How a task is closed. -/
inductive Closing where
  | finished
  | failed (message : String)
  | only (p : Payload)

namespace Closing

/-- The last response of a task. -/
def response (id : TaskId) (order : UInt64) : Closing → TaskResponse
  | finished => { id, type := Sending.endMark, order, final := true }
  | failed message => { id, order, final := true, error := some message }
  | only p => { id, type := p.typeName, order, final := true, payload := p.json }

end Closing

namespace TaskResult

/-- The payloads that are sent before a result is closed. -/
def payloads : TaskResult → List Payload
  | many d => d.payloads
  | one p => [p]
  | only _ | failed _ => []

/-- How a result is closed after all its payloads were taken, or some of them. -/
inductive Closes : TaskResult → List Payload → Closing → Prop where
  | failed (message : String) : Closes (failed message) [] (.failed message)
  | only (p : Payload) : Closes (only p) [] (.only p)
  | one (p : Payload) : Closes (one p) [p] .finished
  | finished (d : Delivery) (h : d.outcome = .ok ()) : Closes (many d) d.payloads .finished
  | broken (d : Delivery) (ps : List Payload) (e : WorkerError) (h : d.outcome = .error e) :
      Closes (many d) ps (.failed e.message)

/-- What was taken of a result: some of its payloads, and at most one closing response, which makes
the difference between success and failure. -/
inductive Replied (id : TaskId) (result : TaskResult) :
    Except SinkError Unit → List TaskResponse → Prop where
  | closed (ps : List Payload) (c : Closing) (hps : ps <+: result.payloads)
      (hc : result.Closes ps c) :
      Replied id result (.ok ())
        (Sending.numbered id ps ++ [c.response id (UInt64.ofNat ps.length)])
  | refused (ps : List Payload) (e : SinkError) (hps : ps <+: result.payloads) :
      Replied id result (.error e) (Sending.numbered id ps)

end TaskResult

namespace Indexer

variable (k : Sink ρ)

theorem respond_noting (s : Sending (ρ × List TaskResponse)) (result : TaskResult) :
    respond k s.plain result =
      ((respond k.noting s result).1, (respond k.noting s result).2.plain) := by
  cases result with
  | failed message => exact Sending.offer_noting k s _ _
  | only p => exact Sending.offer_noting k s _ _
  | one p =>
    simp only [respond, Sending.send_noting]
    rcases s.send k.noting p with ⟨o, s'⟩
    cases o with
    | ok u => exact Sending.offer_noting k s' _ _
    | error e => rfl
  | many d =>
    simp only [respond, Sending.sendAll_noting]
    rcases s.sendAll k.noting d.payloads with ⟨o, s'⟩
    rcases d.outcome with e | u
    · exact Sending.offer_noting k s' _ _
    · cases o with
      | ok u => exact Sending.offer_noting k s' _ _
      | error e => rfl

theorem offer_replied {id : TaskId} {ps : List Payload} {s : Sending (ρ × List TaskResponse)}
    {result : TaskResult} {c : Closing} (h : Sending.Sent id ps s) (hps : ps <+: result.payloads)
    (hc : result.Closes ps c) (name : String) :
    result.Replied id (s.offer k.noting (c.response s.id s.sent) name).1
      (s.offer k.noting (c.response s.id s.sent) name).2.sink.2 := by
  obtain ⟨hid, hsent, htaken⟩ := h
  obtain ⟨hcases, -, -⟩ := Sending.offer_taken k s (c.response s.id s.sent) name
  rcases hcases with ⟨ho, hs⟩ | ⟨⟨e, ho⟩, hs⟩
  · rw [ho, hs, htaken, hid, hsent]
    exact .closed ps c hps hc
  · rw [ho, hs, htaken]
    exact .refused ps e hps

/-- **Every result is sent as some of its payloads and at most one closing response.** -/
theorem respond_replied {id : TaskId} {s : Sending (ρ × List TaskResponse)}
    (h : Sending.Sent id [] s) (result : TaskResult) :
    result.Replied id (respond k.noting s result).1 (respond k.noting s result).2.sink.2 := by
  cases result with
  | failed message => exact offer_replied k h (List.nil_prefix) (.failed message) _
  | only p => exact offer_replied k h (List.nil_prefix) (.only p) _
  | one p =>
    have hsend := Sending.send_sent k h p
    rw [respond]
    rcases hs : s.send k.noting p with ⟨o, s'⟩
    rw [hs] at hsend
    rcases hsend with ⟨ho, h'⟩ | ⟨⟨e, ho⟩, h'⟩
    · cases ho
      exact offer_replied k h' (List.prefix_refl _) (.one p) _
    · cases ho
      rw [h'.taken_eq]
      exact .refused [] e List.nil_prefix
  | many d =>
    obtain ⟨n, -, h', hout⟩ := Sending.sendAll_sent k d.payloads h
    rw [List.nil_append] at h'
    have hps : d.payloads.take n <+: (TaskResult.many d).payloads := List.take_prefix n _
    simp only [respond]
    rcases hs : s.sendAll k.noting d.payloads with ⟨o, s'⟩
    rw [hs] at h' hout
    -- the failure of a delivery is told even if the sink refused a payload
    rcases hd : d.outcome with e | u
    · exact offer_replied k h' hps (.broken d _ e hd) _
    · rcases hout with ⟨ho, hn⟩ | ⟨e, ho⟩
      · cases ho
        rw [hn, List.take_length] at h' hps
        exact offer_replied k h' hps (.finished d hd) _
      · cases ho
        rw [h'.taken_eq]
        exact .refused _ e hps

end Indexer

/-! ## What a receiver can rely on -/

namespace Sending

/-- Responses that only carry payloads are neither final nor errors. -/
theorem numbered_open {id : TaskId} {ps : List Payload} {a : TaskResponse}
    (ha : a ∈ numbered id ps) : a.id = id ∧ a.final = false ∧ a.error = none := by
  obtain ⟨i, hi, rfl⟩ := List.mem_mapIdx.1 ha
  exact ⟨rfl, rfl, rfl⟩

theorem numbered_type {id : TaskId} {ps : List Payload} {a : TaskResponse}
    (ha : a ∈ numbered id ps) : a.type ≠ endMark := by
  obtain ⟨i, hi, rfl⟩ := List.mem_mapIdx.1 ha
  show ps[i].typeName ≠ endMark
  cases ps[i] <;> simp [Payload.typeName, endMark]

theorem numbered_length (id : TaskId) (ps : List Payload) :
    (numbered id ps).length = ps.length :=
  List.length_mapIdx

theorem numbered_orders (id : TaskId) (ps : List Payload) :
    (numbered id ps).map TaskResponse.order = (List.range ps.length).map UInt64.ofNat := by
  apply List.ext_getElem
  · simp [numbered]
  · intro i h₁ h₂
    simp [numbered]

theorem numbered_filter (id : TaskId) (ps : List Payload) :
    (numbered id ps).filter (fun a => !a.final) = numbered id ps := by
  rw [List.filter_eq_self]
  intro a ha
  rw [(numbered_open ha).2.1]
  rfl

theorem numbered_countP (id : TaskId) (ps : List Payload) :
    (numbered id ps).countP TaskResponse.final = 0 := by
  rw [List.countP_eq_zero]
  intro a ha
  rw [(numbered_open ha).2.1]
  exact Bool.false_ne_true

theorem numbered_prefix {id : TaskId} {ps qs : List Payload} (h : ps <+: qs) :
    numbered id ps <+: numbered id qs := by
  obtain ⟨rs, rfl⟩ := h
  rw [numbered, numbered, List.mapIdx_append]
  exact List.prefix_append _ _

end Sending

namespace Closing

theorem response_final (id : TaskId) (n : UInt64) (c : Closing) :
    (c.response id n).final = true := by
  cases c <;> rfl

theorem response_id (id : TaskId) (n : UInt64) (c : Closing) : (c.response id n).id = id := by
  cases c <;> rfl

theorem response_order (id : TaskId) (n : UInt64) (c : Closing) :
    (c.response id n).order = n := by
  cases c <;> rfl

end Closing

/-- Numbers begin again only after the last one that a response can carry. -/
theorem orders_toNat {taken : List TaskResponse}
    (h : taken.map TaskResponse.order = (List.range taken.length).map UInt64.ofNat)
    (hlen : taken.length ≤ UInt64.size) : taken.map (·.order.toNat) = List.range taken.length := by
  have hmap := congrArg (List.map UInt64.toNat) h
  rw [List.map_map, List.map_map] at hmap
  refine hmap.trans ?_
  conv_rhs => rw [← List.map_id (List.range taken.length)]
  refine List.map_congr_left fun i hi => ?_
  have hi : i < taken.length := List.mem_range.1 hi
  exact UInt64.toNat_ofNat_of_lt' (Nat.lt_of_lt_of_le hi hlen)

/-- How the responses to a task are laid out, whatever it asks for: `taken` are those that the sink
took, `outcome` is what the sender was told. -/
structure Orderly (id : TaskId) (outcome : Except SinkError Unit) (taken : List TaskResponse) :
    Prop where
  ids : ∀ a ∈ taken, a.id = id
  orders : taken.map TaskResponse.order = (List.range taken.length).map UInt64.ofNat
  numbers : taken.length ≤ UInt64.size → taken.map (·.order.toNat) = List.range taken.length
  last : ∀ a ∈ taken.dropLast, a.final = false
  errors : ∀ a ∈ taken, a.final = false → a.error = none
  success : outcome = .ok () ↔ taken.countP TaskResponse.final = 1

namespace TaskResult

variable {id : TaskId} {result : TaskResult} {outcome : Except SinkError Unit}
  {taken : List TaskResponse}

theorem Replied.orders (h : result.Replied id outcome taken) :
    taken.map TaskResponse.order = (List.range taken.length).map UInt64.ofNat := by
  cases h with
  | closed ps c hps hc =>
    rw [List.map_append, Sending.numbered_orders, List.length_append, Sending.numbered_length,
      List.length_singleton, List.range_succ, List.map_append, List.map_singleton,
      List.map_singleton, c.response_order]
  | refused ps e hps => rw [Sending.numbered_orders, Sending.numbered_length]

theorem Replied.orderly (h : result.Replied id outcome taken) : Orderly id outcome taken := by
  have horders := h.orders
  cases h with
  | closed ps c hps hc =>
    refine ⟨?_, horders, orders_toNat horders, ?_, ?_, ?_⟩
    · intro a ha
      rcases List.mem_append.1 ha with ha | ha
      · exact (Sending.numbered_open ha).1
      · rw [List.mem_singleton.1 ha]
        exact c.response_id id _
    · intro a ha
      rw [List.dropLast_concat] at ha
      exact (Sending.numbered_open ha).2.1
    · intro a ha hopen
      rcases List.mem_append.1 ha with ha | ha
      · exact (Sending.numbered_open ha).2.2
      · rw [List.mem_singleton.1 ha, c.response_final] at hopen
        cases hopen
    -- only the closing response is final
    · rw [List.countP_append, Sending.numbered_countP, List.countP_singleton, c.response_final]
      exact ⟨fun _ => rfl, fun _ => rfl⟩
  | refused ps e hps =>
    refine ⟨?_, horders, orders_toNat horders, ?_, ?_, ?_⟩
    · exact fun a ha => (Sending.numbered_open ha).1
    · exact fun a ha => (Sending.numbered_open (List.dropLast_subset _ ha)).2.1
    · exact fun a ha _ => (Sending.numbered_open ha).2.2
    · rw [Sending.numbered_countP]
      exact ⟨(nomatch ·), (nomatch ·)⟩

/-- The final response, if there is one, is how the result closes after the payloads before it. -/
theorem Replied.final (h : result.Replied id outcome taken) {a : TaskResponse} (ha : a ∈ taken)
    (hfinal : a.final = true) :
    ∃ ps c, result.Closes ps c ∧ a = c.response id (UInt64.ofNat ps.length) ∧
      taken = Sending.numbered id ps ++ [a] := by
  cases h with
  | closed ps c hps hc =>
    rcases List.mem_append.1 ha with ha | ha
    · rw [(Sending.numbered_open ha).2.1] at hfinal
      cases hfinal
    · rw [List.mem_singleton.1 ha]
      exact ⟨ps, c, hc, rfl, rfl⟩
  | refused ps e hps =>
    rw [(Sending.numbered_open ha).2.1] at hfinal
    cases hfinal

/-- The other responses carry a part of the payloads, in their order. -/
theorem Replied.open_prefix (h : result.Replied id outcome taken) :
    taken.filter (fun a => !a.final) <+: Sending.numbered id result.payloads := by
  cases h with
  | closed ps c hps hc =>
    rw [List.filter_append, Sending.numbered_filter, List.filter_singleton, c.response_final]
    simpa using Sending.numbered_prefix hps
  | refused ps e hps =>
    rw [Sending.numbered_filter]
    exact Sending.numbered_prefix hps

/-- The end mark comes after all payloads of a delivery that succeeded. -/
theorem Replied.completed {d : Delivery} (h : (many d).Replied id outcome taken)
    {a : TaskResponse} (ha : a ∈ taken) (htype : a.type = Sending.endMark) :
    taken.filter (fun a => !a.final) = Sending.numbered id d.payloads ∧ d.outcome = .ok () := by
  cases h with
  | closed ps c hps hc =>
    rcases List.mem_append.1 ha with ha | ha
    · exact absurd htype (Sending.numbered_type ha)
    · rw [List.mem_singleton.1 ha] at htype
      cases hc with
      | finished _ hd =>
        rw [List.filter_append, Sending.numbered_filter, List.filter_singleton]
        exact ⟨List.append_nil _, hd⟩
      | broken => exact absurd htype (by simp [Closing.response, Sending.endMark])
  | refused ps e hps => exact absurd htype (Sending.numbered_type ha)

theorem Replied.failed_type {message : String} (h : (failed message).Replied id outcome taken)
    {a : TaskResponse} (ha : a ∈ taken) : a.type ≠ Sending.endMark := by
  cases h with
  | closed ps c hps hc =>
    cases hc
    rw [List.mem_singleton.1 ha]
    exact (by decide : "" ≠ Sending.endMark)
  | refused ps e hps => exact Sending.numbered_type ha

end TaskResult

/-! ## What a task is answered with -/

namespace Indexer

variable [Clocked σ] (x : Indexer σ)

theorem ofLabel?_label (t : TaskType) : TaskType.ofLabel? t.label = some t := by
  cases t <;> rfl

theorem label_of_ofLabel? {name : String} {t : TaskType} (h : TaskType.ofLabel? name = some t) :
    t.label = name := by
  have hfind := List.find?_some h
  simpa using hfind

/-- What the pipeline produces for a request; nothing if the request is refused. -/
def produced (r : TaskRequest) (world : σ) : Delivery :=
  let deadline := some (Clocked.now world + x.timeout)
  if r.type = TaskType.transactions.label then
    match r.range (x.notPayload r) with
    | .ok range => (x.fetcher.fetch range deadline world).1
    | .error e => { outcome := .error (.request e) }
  else if r.type = TaskType.latest.label then
    match r.latest (x.notPayload r) with
    | .ok q => (x.fetcher.fetchLatest q deadline world).1
    | .error e => { outcome := .error (.request e) }
  else {}

theorem perform_label {r : TaskRequest} {t : TaskType} (h : r.type = t.label) (world : σ) :
    x.perform r world = x.performAs r (some (Clocked.now world + x.timeout)) t world := by
  have hlabel : TaskType.ofLabel? r.type = some t := by rw [h, ofLabel?_label]
  simp only [perform, hlabel]
  rfl

/-- The result of a streamed task is what the pipeline produced, or the refusal of the request. -/
theorem perform_streamed {r : TaskRequest} (world : σ)
    (h : r.type = TaskType.transactions.label ∨ r.type = TaskType.latest.label) :
    (x.perform r world).1 = .many (x.produced r world) ∨
      (∃ message, (x.perform r world).1 = .failed message) ∧
        (x.produced r world).payloads = [] ∧ (x.produced r world).outcome ≠ .ok () := by
  rcases h with h | h
  · rw [x.perform_label h, performAs, produced, if_pos h]
    rcases r.range (x.notPayload r) with e | range
    · exact .inr ⟨⟨_, rfl⟩, rfl, nofun⟩
    · exact .inl rfl
  · have hne : r.type ≠ TaskType.transactions.label := by
      rw [h]
      decide
    rw [x.perform_label h, performAs, produced, if_neg hne, if_pos h]
    rcases r.latest (x.notPayload r) with e | q
    · exact .inr ⟨⟨_, rfl⟩, rfl, nofun⟩
    · exact .inl rfl

/-- The mark of the newest block, as the source tells it. -/
def NewestMark (world : σ) (p : Payload) : Prop :=
  ∃ b, ((x.source.block 0 (some (Clocked.now world + markTimeout))).run world).1 = .ok b ∧
    p = .mark { lastHash := b.hash, lastHeight := b.height, lastTime := b.time }

/-- A question that has a payload as its answer is not answered with a final one. -/
theorem single_ne_only {α : Type} (question : Activity σ (Except NodeError α))
    (payload : α → Payload) (world : σ) (p : Payload) :
    (single question payload world).1 ≠ .only p := by
  rcases hrun : question.run world with ⟨e | a, world'⟩
  · simp only [single, bind, StateT.bind, hrun]
    exact nofun
  · simp only [single, bind, StateT.bind, hrun]
    exact nofun

/-- Only the question for the newest block is answered with a single final payload. -/
theorem perform_only {r : TaskRequest} {world : σ} {p : Payload}
    (h : (x.perform r world).1 = .only p) :
    r.type = TaskType.latestMark.label ∧ x.NewestMark world p := by
  rcases ht : TaskType.ofLabel? r.type with _ | t
  · have hnone : x.perform r world = (.failed s!"There is no such handler {r.type}", world) := by
      simp only [perform, ht]
      rfl
    rw [hnone] at h
    cases h
  · have hlabel := (label_of_ofLabel? ht).symm
    rw [x.perform_label hlabel] at h
    cases t with
    | transactions =>
      rw [performAs] at h
      rcases hr : r.range (x.notPayload r) with e | range <;> rw [hr] at h <;> cases h
    | latest =>
      rw [performAs] at h
      rcases hr : r.latest (x.notPayload r) with e | q <;> rw [hr] at h <;> cases h
    | latestMark =>
      refine ⟨hlabel, ?_⟩
      set question := x.source.block 0 (some (Clocked.now world + markTimeout)) with hquestion
      rw [performAs] at h
      rcases hr : r.latest (x.notPayload r) with e | q
      · rw [hr] at h
        cases h
      · rcases hrun : question.run world with ⟨e | b, world'⟩
        · simp only [hr, get, getThe, MonadStateOf.get, StateT.get, pure, bind, StateT.bind,
            ← hquestion, hrun] at h
          cases h
        · simp only [hr, get, getThe, MonadStateOf.get, StateT.get, pure, bind, StateT.bind,
            ← hquestion, hrun] at h
          cases h
          exact ⟨b, congrArg Prod.fst hrun, rfl⟩
    | reward | balance | delegations =>
      rw [performAs] at h
      rcases hr : r.account (x.notPayload r) with e | q
      · rw [hr] at h
        cases h
      · rw [hr] at h
        exact absurd h (single_ne_only _ _ _ _)

/-- What the responses to a request say. A final one is the end mark, or an error, or the mark of the
newest block; the others of a streamed task carry what the pipeline produced first, and the end mark
comes only after all of it. -/
structure Answered (r : TaskRequest) (world : σ) (taken : List TaskResponse) : Prop where
  endings : ∀ a ∈ taken, a.final = true →
    (a.type = Sending.endMark ∧ a.error = none ∧ a.payload = .null) ∨
    (∃ message, a.type = "" ∧ a.error = some message ∧ a.payload = .null) ∨
    (r.type = TaskType.latestMark.label ∧ a.error = none ∧
      ∃ p, x.NewestMark world p ∧ a.type = p.typeName ∧ a.payload = p.json)
  streamed : r.type = TaskType.transactions.label ∨ r.type = TaskType.latest.label →
    taken.filter (fun a => !a.final) <+: Sending.numbered r.id (x.produced r world).payloads
  completed : r.type = TaskType.transactions.label ∨ r.type = TaskType.latest.label →
    (∃ a ∈ taken, a.type = Sending.endMark) →
    taken.filter (fun a => !a.final) = Sending.numbered r.id (x.produced r world).payloads ∧
      (x.produced r world).outcome = .ok ()

/-- What a sink takes of the result of a task is an answer to it. -/
theorem replied_answered {r : TaskRequest} {world : σ} {outcome : Except SinkError Unit}
    {taken : List TaskResponse} (h : (x.perform r world).1.Replied r.id outcome taken) :
    x.Answered r world taken := by
  refine ⟨?_, ?_, ?_⟩
  · intro a ha hfinal
    obtain ⟨ps, c, hc, rfl, -⟩ := h.final ha hfinal
    -- how the task was closed tells what it has come to
    generalize hresult : (x.perform r world).1 = result at hc
    cases hc with
    | failed message => exact .inr (.inl ⟨message, rfl, rfl, rfl⟩)
    | only p =>
      obtain ⟨hr, hp⟩ := x.perform_only hresult
      exact .inr (.inr ⟨hr, rfl, p, hp, rfl, rfl⟩)
    | one p => exact .inl ⟨rfl, rfl, rfl⟩
    | finished d hd => exact .inl ⟨rfl, rfl, rfl⟩
    | broken d ps e hd => exact .inr (.inl ⟨e.message, rfl, rfl, rfl⟩)
  · intro hr
    have hprefix := h.open_prefix
    rcases x.perform_streamed world hr with hp | ⟨⟨message, hp⟩, -, -⟩
    · rwa [hp] at hprefix
    · rw [hp] at hprefix
      exact hprefix.trans List.nil_prefix
  · rintro hr ⟨a, ha, htype⟩
    rcases x.perform_streamed world hr with hp | ⟨⟨message, hp⟩, -, -⟩
    · rw [hp] at h
      exact h.completed ha htype
    · rw [hp] at h
      exact absurd htype (h.failed_type ha)

/-- The sending of a task's responses before any of them is sent. -/
def opening (r : TaskRequest) (w : Work σ ρ) : Sending ρ where
  id := r.id
  sink := w.other
  journal := (x.perform r w.world).1.journal ++ .taskReceived r.type :: w.journal

theorem handle_eq (k : Sink ρ) (r : TaskRequest) (w : Work σ ρ) :
    x.handle k r w =
      ((respond k (x.opening r w) (x.perform r w.world).1).1,
        { world := (x.perform r w.world).2
          other := (respond k (x.opening r w) (x.perform r w.world).1).2.sink
          journal := (respond k (x.opening r w) (x.perform r w.world).1).2.journal }) :=
  rfl

/-- **The contract of a task.** Whatever is asked for, whatever the source replies and whichever
responses the sink refuses, the responses that the sink takes are in order and answer the request;
noting them does not change how the task is carried out. -/
theorem handle_contract (k : Sink ρ) (r : TaskRequest) (w : Work σ ρ) :
    let noted := x.handle k.noting r { w with other := (w.other, []) }
    x.handle k r w = (noted.1, { noted.2 with other := noted.2.other.1 }) ∧
      Orderly r.id noted.1 noted.2.other.2 ∧ x.Answered r w.world noted.2.other.2 := by
  intro noted
  set opened := x.opening r { w with other := (w.other, ([] : List TaskResponse)) } with hopened
  -- nothing was sent when the result is there
  have hsent : Sending.Sent r.id [] opened := ⟨rfl, rfl, rfl⟩
  have hreplied := respond_replied k hsent (x.perform r w.world).1
  have hnoting := respond_noting k opened (x.perform r w.world).1
  refine ⟨?_, hreplied.orderly, x.replied_answered hreplied⟩
  have hplain : x.opening r w = opened.plain := rfl
  rw [x.handle_eq, hplain, hnoting]
  rfl

end Indexer

end ChainIndex
