import ChainIndex.Proofs.Records
import ChainIndex.Task.Request
import ChainIndex.Task.Response

/-!
# The wire form of the data model

Records of texts, numbers and lists are read back exactly. Events hold maps, whose order a JSON value
does not keep, and wrapped events in any number; they are read back with their keys in some order.

* `Event.restores`: **an event is read back, however deep events are wrapped in it.**
* `wire_form_loses_nothing`: every record that is sent or received is read back from its JSON.
* `Payload.readsBack`, `TaskResponse.carries`: what a task answers with is read back by its type.
-/

namespace ChainIndex

open Json Json.Codec

/-! ## Records without maps -/

theorem Time.codec_exact : Time.codec.Exact := fun t =>
  via_restores (text_exact _) (ofText?_text t)

theorem TaskId.codec_exact : TaskId.codec.Exact := fun id =>
  via_restores (text_exact _) (ofText?_text id)

theorem Amount.codec_exact : Amount.codec.Exact := fun _ =>
  Shape.restores (by decide) <|
    .required text_exact <| .required bigInt_exact <| .required int32_exact <|
    .defaulted text_exact <| .done rfl

theorem Description.codec_exact : Description.codec.Exact := fun _ =>
  Shape.restores (by decide) <|
    .required text_exact <| .required text_exact <| .required text_exact <|
    .required text_exact <| .required text_exact <| .done rfl

theorem Account.codec_exact : Account.codec.Exact := fun _ =>
  Shape.restores (by decide) <|
    .required text_exact <|
    .omitted (Description.codec_exact.option nofun _) Option.isNone_iff_eq_none.1 rfl <| .done rfl

theorem Movement.codec_exact : Movement.codec.Exact := fun _ =>
  Shape.restores (by decide) <|
    .required Account.codec_exact <| .defaulted Amount.codec_exact.list <| .done rfl

theorem Block.codec_exact : Block.codec.Exact := fun _ =>
  Shape.restores (by decide) <|
    .required text_exact <| .required word64_exact <| .required Time.codec_exact <|
    .required text_exact <| .required word64_exact <| .done rfl

theorem HeightRange.codec_exact : HeightRange.codec.Exact := fun _ =>
  Shape.restores (by decide) <|
    .required word64_exact <| .required word64_exact <| .defaulted text_exact <|
    .defaulted text_exact <| .done rfl

theorem SearchPage.codec_exact : SearchPage.codec.Exact := fun _ =>
  Shape.restores (by decide) <|
    .required word64_exact <| .required word32_exact <| .required word32_exact <| .done rfl

theorem text_option_exact : Codec.text.option.Exact := text_exact.option nofun

theorem Time.option_exact : Time.codec.option.Exact :=
  Time.codec_exact.option fun t (h : Json.text t.text = .null) => nomatch h

theorem LatestQuery.codec_exact : LatestQuery.codec.Exact := fun _ =>
  Shape.restores (by decide) <|
    .defaulted word64_exact <| .defaulted text_exact <| .defaulted Time.option_exact <|
    .defaulted text_option_exact <| .defaulted word64_exact <| .defaulted bool_exact <| .done rfl

theorem LatestMark.codec_exact : LatestMark.codec.Exact := fun _ =>
  Shape.restores (by decide) <|
    .required text_exact <| .required word64_exact <| .required Time.codec_exact <| .done rfl

theorem AccountQuery.codec_exact : AccountQuery.codec.Exact := fun _ =>
  Shape.restores (by decide) <|
    .defaulted word64_exact <| .required text_exact <| .defaulted text_exact <|
    .defaulted text_exact <| .done rfl

theorem Reward.codec_exact : Reward.codec.Exact := fun _ =>
  Shape.restores (by decide) <|
    .required word64_exact <| .required text_exact <| .required Amount.codec_exact.list <| .done rfl

theorem Balance.codec_exact : Balance.codec.Exact := fun _ =>
  Shape.restores (by decide) <|
    .required word64_exact <| .required text_exact <| .required Amount.codec_exact.list <| .done rfl

theorem Delegation.codec_exact : Delegation.codec.Exact := fun _ =>
  Shape.restores (by decide) <|
    .required text_exact <| .required text_exact <| .required Amount.codec_exact <|
    .required Amount.codec_exact <| .done rfl

theorem Delegations.codec_exact : Delegations.codec.Exact := fun _ =>
  Shape.restores (by decide) <|
    .required word64_exact <| .required text_exact <| .required Delegation.codec_exact.list <|
    .done rfl

/-- Further names change nothing, as a record is written under its own ones. -/
theorem Execution.codec_exact : Execution.codec.Exact := fun _ =>
  Shape.restores (by decide) <|
    .defaulted text_exact <|
    .always rfl rfl (text_exact _) fun _ hwanted =>
    .always rfl rfl (text_exact _) fun _ hused => .done (by rw [hwanted, hused])

theorem RawTransaction.codec_exact : RawTransaction.codec.Exact := fun _ =>
  Shape.restores (by decide) <|
    .required text_exact <| .required text_exact <| .defaulted Execution.codec_exact <|
    .defaulted text_exact <| .done rfl

/-! ## Events -/

namespace Event

/-- In the maps of the event, and of those wrapped in it, no key stands twice. -/
inductive WellKeyed : Event → Prop where
  | intro {e : Event} (hnodes : e.nodes.keys.Nodup) (hamounts : e.amounts.keys.Nodup)
      (hadditional : e.additional.keys.Nodup) (htransfers : e.transfers.keys.Nodup)
      (hsub : ∀ s ∈ e.sub, WellKeyed s) : WellKeyed e

/-- The same event, up to the order of the keys in its maps. -/
inductive Same : Event → Event → Prop where
  | intro {e f : Event} (htypes : f.types = e.types) (hmodule : f.module = e.module)
      (hnodes : List.Perm f.nodes e.nodes) (hsenders : f.senders = e.senders)
      (hrecipients : f.recipients = e.recipients) (hamounts : List.Perm f.amounts e.amounts)
      (hadditional : List.Perm f.additional e.additional)
      (htransfers : List.Perm f.transfers e.transfers) (hsub : List.Forall₂ Same e.sub f.sub)
      (herror : f.error = e.error) : Same e f

theorem errorShape_exact : errorShape.codec.Exact := fun _ =>
  Shape.restores (by decide) <| .required text_exact <| .done rfl

theorem shape_distinct (c : Codec Event) : (shape c).Distinct :=
  of_decide_eq_true rfl

/-- A codec that goes deep enough restores an event. -/
theorem codecTo_restores {n : Nat} {e : Event} (he : e.WellKeyed) (hn : e.depth ≤ n) :
    (codecTo n).Restores e e.Same := by
  induction n generalizing e with
  | zero =>
    rw [depth_eq] at hn
    omega
  | succ n ih =>
    obtain ⟨hnodes, hamounts, hadditional, htransfers, hsub⟩ := he
    have hwrapped : ∀ s ∈ e.sub, (codecTo n).Restores s s.Same := by
      intro s hs
      have hdepth := depth_le_depthList hs
      rw [depth_eq] at hn
      exact ih (hsub s hs) (by omega)
    refine Shape.restores (shape_distinct _) ?_
    refine .defaulted text_exact.list <| .defaulted text_exact <| ?_
    refine .map Account.codec_exact.list hnodes rfl fun nodes hnodes' => ?_
    refine .omitted (Movement.codec_exact.list _) List.isEmpty_iff.1 rfl <| ?_
    refine .omitted (Movement.codec_exact.list _) List.isEmpty_iff.1 rfl <| ?_
    refine .map Amount.codec_exact hamounts rfl fun amounts hamounts' => ?_
    refine .map text_exact.list hadditional rfl fun additional hadditional' => ?_
    refine .map Movement.codec_exact.list htransfers rfl fun transfers htransfers' => ?_
    refine .list hwrapped rfl fun sub hsub' => ?_
    refine .omitted (errorShape_exact.option nofun _) Option.isNone_iff_eq_none.1 rfl <| .done ?_
    exact ⟨rfl, rfl, hnodes', rfl, rfl, hamounts', hadditional', htransfers', hsub', rfl⟩

theorem shape_write_congr {c d : Codec Event} {e : Event} (h : ∀ s ∈ e.sub, c.write s = d.write s) :
    (shape c).codec.write e = (shape d).codec.write e := by
  have hsub : c.list.write e.sub = d.list.write e.sub := congrArg Json.array (List.map_congr_left h)
  refine Shape.write_congr ?_
  refine .cons rfl <| .cons rfl <| .cons rfl <| .cons rfl <| .cons rfl <| .cons rfl <| .cons rfl <|
    .cons rfl <| .cons ?_ <| .cons rfl .nil
  simp only [Field.member, Field.omitted, hsub]

/-- How much deeper than the event its codec goes is not seen in what it writes. -/
theorem codecTo_write {n m : Nat} {e : Event} (hn : e.depth ≤ n) (hm : e.depth ≤ m) :
    (codecTo n).write e = (codecTo m).write e := by
  induction n generalizing e m with
  | zero =>
    rw [depth_eq] at hn
    omega
  | succ n ih =>
    rw [depth_eq] at hn hm
    obtain ⟨m, rfl⟩ : ∃ k, m = k + 1 := ⟨m - 1, by omega⟩
    refine shape_write_congr fun s hs => ?_
    have hdepth := depth_le_depthList hs
    exact ih (by omega) (by omega)

theorem sub_mem_members {c : Codec Event} {e : Event} (h : e.sub ≠ []) :
    ("sub", Json.array (e.sub.map c.write)) ∈ (shape c).members e := by
  have hwrite : (Field.omitted "sub" c.list Event.sub (fun e v => { e with sub := v })
      List.isEmpty).write e = some (.array (e.sub.map c.write)) := if_neg (mt List.isEmpty_iff.1 h)
  exact Shape.mem_members (List.mem_of_getElem? (i := 8) rfl) hwrite

theorem depth_le_write {n : Nat} {e : Event} (hn : e.depth ≤ n) :
    e.depth ≤ ((codecTo n).write e).depth := by
  induction n generalizing e with
  | zero =>
    rw [depth_eq] at hn
    omega
  | succ n ih =>
    rw [depth_eq] at hn ⊢
    show _ ≤ (Json.object ((shape (codecTo n)).members e)).depth
    rw [Json.depth, Nat.add_le_add_iff_right]
    refine depthList_le.2 fun s hs => ?_
    have hdepth := depth_le_depthList hs
    calc s.depth ≤ ((codecTo n).write s).depth := ih (by omega)
      _ ≤ depthItems (e.sub.map (codecTo n).write) :=
        depth_le_depthItems (List.mem_map_of_mem hs)
      _ ≤ (Json.array (e.sub.map (codecTo n).write)).depth := by
        rw [Json.depth]
        exact Nat.le_succ _
      _ ≤ depthMembers ((shape (codecTo n)).members e) :=
        depth_le_depthMembers (sub_mem_members (List.ne_nil_of_mem hs))

/-- **An event is read back, however deep events are wrapped in it.** -/
theorem restores {e : Event} (he : e.WellKeyed) : Event.codec.Restores e e.Same := by
  have hwrite : (Event.codec.write e).Proper := (codecTo_restores he le_rfl).proper
  refine ⟨hwrite, fun j hj => ?_⟩
  have hdepth : e.depth ≤ j.depth := by
    rw [hj.depth_eq hwrite]
    exact depth_le_write le_rfl
  refine (codecTo_restores he hdepth).read j ?_
  rw [codecTo_write hdepth le_rfl]
  exact hj

/-- Empty maps and lists and an absent error are left out, and nothing else is. -/
structure LeavesOut (e : Event) (j : Json) : Prop where
  nodes : j.member? "node" = none ↔ e.nodes = []
  senders : j.member? "sender" = none ↔ e.senders = []
  recipients : j.member? "recipient" = none ↔ e.recipients = []
  amounts : j.member? "amount" = none ↔ e.amounts = []
  additional : j.member? "additional" = none ↔ e.additional = []
  transfers : j.member? "transfers" = none ↔ e.transfers = []
  sub : j.member? "sub" = none ↔ e.sub = []
  error : j.member? "error" = none ↔ e.error = none

theorem leavesOut (e : Event) : e.LeavesOut (Event.codec.write e) := by
  have hs := shape_distinct (codecTo (depthList e.sub))
  show e.LeavesOut ((codecTo e.depth).write e)
  rw [depth_eq]
  exact
    { nodes := Shape.member?_omitted hs 2 List.isEmpty_iff rfl
      senders := Shape.member?_omitted hs 3 List.isEmpty_iff rfl
      recipients := Shape.member?_omitted hs 4 List.isEmpty_iff rfl
      amounts := Shape.member?_omitted hs 5 List.isEmpty_iff rfl
      additional := Shape.member?_omitted hs 6 List.isEmpty_iff rfl
      transfers := Shape.member?_omitted hs 7 List.isEmpty_iff rfl
      sub := Shape.member?_omitted hs 8 List.isEmpty_iff rfl
      error := Shape.member?_omitted hs 9 Option.isNone_iff_eq_none rfl }

end Event

theorem Account.member?_details (a : Account) :
    (Account.codec.write a).member? "details" = none ↔ a.details = none :=
  Shape.member?_omitted (by decide) 1 Option.isNone_iff_eq_none rfl

/-! ## Transactions -/

namespace TransactionEvent

def WellKeyed (e : TransactionEvent) : Prop :=
  ∀ s ∈ e.sub, s.WellKeyed

structure Same (e f : TransactionEvent) : Prop where
  id : f.id = e.id
  kind : f.kind = e.kind
  sub : List.Forall₂ Event.Same e.sub f.sub

theorem restores {e : TransactionEvent} (he : e.WellKeyed) :
    TransactionEvent.codec.Restores e e.Same :=
  Shape.restores (by decide) <|
    .required text_exact <| .required text_exact <|
    .always rfl rfl (restores_list fun s hs => Event.restores (he s hs)) fun _ hsub =>
    .done ⟨rfl, rfl, hsub⟩

end TransactionEvent

namespace Transaction

def WellKeyed (t : Transaction) : Prop :=
  ∀ e ∈ t.events, e.WellKeyed

/-- Transactions that differ in nothing but the order of keys in their events. -/
structure Same (t u : Transaction) : Prop where
  rest : u = { t with events := u.events }
  events : List.Forall₂ TransactionEvent.Same t.events u.events

theorem restores {t : Transaction} (ht : t.WellKeyed) : Transaction.codec.Restores t t.Same :=
  Shape.restores (by decide) <|
    .required text_exact <| .required word64_exact <| .nullable Time.option_exact <|
    .required text_exact <| .required text_exact <| .required text_exact <|
    .required word64_exact <| .required word64_exact <| .defaulted Amount.codec_exact.list <|
    .required text_exact <| .required text_exact <|
    .always rfl rfl (restores_list fun e he => TransactionEvent.restores (ht e he))
      fun _ hevents => .done ⟨rfl, hevents⟩

end Transaction

/-! ## Tasks -/

/-- A payload is a value as it was read, with its members in the order of their names. -/
theorem TaskRequest.restores {r : TaskRequest} (hr : r.payload.canonical? = some r.payload) :
    TaskRequest.codec.Restores r (· = r) :=
  Shape.restores (by decide) <|
    .required TaskId.codec_exact <| .required text_exact <|
    .always rfl rfl (free_restores hr) fun _ hpayload => .done (by rw [hpayload])

namespace TaskResponse

theorem errorShape_exact : errorShape.codec.Exact := fun _ =>
  Shape.restores (by decide) <| .required text_exact <| .done rfl

theorem isNull_iff {j : Json} : isNull j = true ↔ j = .null := by
  cases j <;> simp [isNull]

theorem restores {r : TaskResponse} (hr : r.payload.canonical? = some r.payload) :
    TaskResponse.codec.Restores r (· = r) :=
  Shape.restores (by decide) <|
    .required TaskId.codec_exact <| .required text_exact <| .required word64_exact <|
    .required bool_exact <|
    .omitted (errorShape_exact.option nofun _) Option.isNone_iff_eq_none.1 rfl <|
    .omitted (free_restores hr) isNull_iff.1 rfl <| .done rfl

theorem member?_error (r : TaskResponse) :
    (TaskResponse.codec.write r).member? "error" = none ↔ r.error = none :=
  Shape.member?_omitted (by decide) 4 Option.isNone_iff_eq_none rfl

theorem member?_payload (r : TaskResponse) :
    (TaskResponse.codec.write r).member? "payload" = none ↔ r.payload = .null :=
  Shape.member?_omitted (by decide) 5 isNull_iff rfl

end TaskResponse

namespace Payload

def WellKeyed : Payload → Prop
  | transaction t => t.WellKeyed
  | _ => True

def Same : Payload → Payload → Prop
  | transaction t, transaction u => t.Same u
  | p, q => q = p

/-- The JSON of a payload is in the order of names, and the payload is read back from it. -/
structure ReadsBack (p : Payload) : Prop where
  ordered : p.json.canonical? = some p.json
  read : ∃ q, ofJson? p.typeName p.json = some q ∧ p.Same q

theorem readsBack_of_restores {α : Type} {c : Codec α} {a : α} {Q : α → Prop} (wrap : α → Payload)
    (h : c.Restores a Q) (hwrite : (wrap a).members = c.write a)
    (hread : ∀ j, ofJson? (wrap a).typeName j = (c.read j).map wrap)
    (hsame : ∀ b, Q b → (wrap a).Same (wrap b)) : (wrap a).ReadsBack := by
  obtain ⟨j, b, hj, hb, hQ⟩ := h.canonical
  have hjson : (wrap a).json = j := by
    rw [json, hwrite, hj, Option.getD_some]
  constructor
  · rw [hjson]
    exact (canonical?_spec hj).2
  · refine ⟨wrap b, ?_, hsame b hQ⟩
    rw [hjson, hread, hb, Option.map_some]

theorem readsBack_of_exact {α : Type} {c : Codec α} {a : α} (wrap : α → Payload) (h : c.Exact)
    (hwrite : (wrap a).members = c.write a)
    (hread : ∀ j, ofJson? (wrap a).typeName j = (c.read j).map wrap)
    (hsame : (wrap a).Same (wrap a)) : (wrap a).ReadsBack := by
  refine readsBack_of_restores wrap (h a) hwrite hread ?_
  rintro _ rfl
  exact hsame

/-- **What a task answers with is read back by the name of its type.** -/
theorem readsBack {p : Payload} (hp : p.WellKeyed) : p.ReadsBack := by
  cases p with
  | transaction t =>
    exact readsBack_of_restores transaction (Transaction.restores hp) rfl (fun _ => rfl)
      fun u hsame => hsame
  | block b => exact readsBack_of_exact block Block.codec_exact rfl (fun _ => rfl) rfl
  | reward r => exact readsBack_of_exact reward Reward.codec_exact rfl (fun _ => rfl) rfl
  | balance b => exact readsBack_of_exact balance Balance.codec_exact rfl (fun _ => rfl) rfl
  | delegations d =>
    exact readsBack_of_exact delegations Delegations.codec_exact rfl (fun _ => rfl) rfl
  | mark m => exact readsBack_of_exact mark LatestMark.codec_exact rfl (fun _ => rfl) rfl

end Payload

/-- A response that carries a payload is read back, and then the payload from it. -/
theorem TaskResponse.carries {p : Payload} (hp : p.WellKeyed) {r : TaskResponse}
    (htype : r.type = p.typeName) (hpayload : r.payload = p.json) :
    TaskResponse.codec.Restores r fun s =>
      s = r ∧ ∃ q, Payload.ofJson? s.type s.payload = some q ∧ p.Same q := by
  obtain ⟨hordered, hread⟩ := Payload.readsBack hp
  refine (TaskResponse.restores (by rw [hpayload, hordered])).imp ?_
  rintro _ rfl
  rw [htype, hpayload]
  exact ⟨rfl, hread⟩

/-! ## All of them -/

/-- **The wire form of the data model loses nothing.** In whatever order the members of its JSON stand,
a value is read back; events, and what holds them, up to the order of the keys in their maps. What is
left out is empty, and comes back so. -/
theorem wire_form_loses_nothing :
    ((∀ t : Transaction, t.WellKeyed → Transaction.codec.Restores t t.Same) ∧
      (∀ e : TransactionEvent, e.WellKeyed → TransactionEvent.codec.Restores e e.Same) ∧
      ∀ e : Event, e.WellKeyed → Event.codec.Restores e e.Same) ∧
    ((∀ r : TaskRequest, r.payload.canonical? = some r.payload →
        TaskRequest.codec.Restores r (· = r)) ∧
      ∀ r : TaskResponse, r.payload.canonical? = some r.payload →
        TaskResponse.codec.Restores r (· = r)) ∧
    (Movement.codec.Exact ∧ Account.codec.Exact ∧ Amount.codec.Exact ∧ Block.codec.Exact ∧
      HeightRange.codec.Exact ∧ AccountQuery.codec.Exact ∧ LatestQuery.codec.Exact ∧
      LatestMark.codec.Exact ∧ Reward.codec.Exact ∧ Balance.codec.Exact ∧ Delegations.codec.Exact ∧
      RawTransaction.codec.Exact ∧ SearchPage.codec.Exact) ∧
    (∀ e : Event, e.LeavesOut (Event.codec.write e)) ∧
    (∀ a : Account, (Account.codec.write a).member? "details" = none ↔ a.details = none) ∧
    ∀ r : TaskResponse, ((TaskResponse.codec.write r).member? "error" = none ↔ r.error = none) ∧
      ((TaskResponse.codec.write r).member? "payload" = none ↔ r.payload = .null) := by
  refine ⟨⟨fun _ ht => Transaction.restores ht, fun _ he => TransactionEvent.restores he,
    fun _ he => Event.restores he⟩, ⟨fun _ hr => TaskRequest.restores hr,
    fun _ hr => TaskResponse.restores hr⟩, ?_, Event.leavesOut, Account.member?_details,
    fun r => ⟨TaskResponse.member?_error r, TaskResponse.member?_payload r⟩⟩
  exact ⟨Movement.codec_exact, Account.codec_exact, Amount.codec_exact, Block.codec_exact,
    HeightRange.codec_exact, AccountQuery.codec_exact, LatestQuery.codec_exact,
    LatestMark.codec_exact, Reward.codec_exact, Balance.codec_exact, Delegations.codec_exact,
    RawTransaction.codec_exact, SearchPage.codec_exact⟩

/-- A failed transfer that was wrapped twice, with roles that are not in the order of names. -/
def wrappedTwice : Event :=
  let exec (e : Event) : Event := { types := ["exec"], sub := [e] }
  exec (exec {
    types := ["send"]
    nodes := [("to", [⟨"terra1b", some {}⟩]), ("from", [⟨"terra1a", none⟩])]
    error := some "insufficient funds" })

theorem wire_form_of_wrappedTwice :
    let e : TransactionEvent := { id := "0", sub := [wrappedTwice] }
    let t : Transaction := { events := [e] }
    let request : TaskRequest := { payload := .object [("end_height", .integer 9)] }
    let response : TaskResponse := { error := some "stopped" }
    (wrappedTwice.WellKeyed ∧ e.WellKeyed ∧ t.WellKeyed ∧
      request.payload.canonical? = some request.payload ∧
      response.payload.canonical? = some response.payload) ∧
    Event.codec.Restores wrappedTwice wrappedTwice.Same ∧ TransactionEvent.codec.Restores e e.Same ∧
      Transaction.codec.Restores t t.Same ∧ TaskRequest.codec.Restores request (· = request) ∧
      TaskResponse.codec.Restores response (· = response) := by
  intro e t request response
  have hexec (e : Event) (he : e.WellKeyed) : Event.WellKeyed { types := ["exec"], sub := [e] } :=
    .intro .nil .nil .nil .nil (List.forall_mem_singleton.2 he)
  have hevent : wrappedTwice.WellKeyed :=
    hexec _ (hexec _ (.intro (by decide) .nil .nil .nil nofun))
  have he : e.WellKeyed := List.forall_mem_singleton.2 hevent
  have ht : t.WellKeyed := List.forall_mem_singleton.2 he
  obtain ⟨⟨htransaction, htransactionEvent, hwrapped⟩, ⟨hrequest, hresponse⟩, -⟩ :=
    wire_form_loses_nothing
  exact ⟨⟨hevent, he, ht, rfl, rfl⟩, hwrapped _ hevent, htransactionEvent e he, htransaction t ht,
    hrequest request rfl, hresponse response rfl⟩

end ChainIndex
