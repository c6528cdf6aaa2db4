import ChainIndex.Proofs.EncodingIndependence
import ChainIndex.Proofs.SilentMappings

/-!
# Messages that wrap others

A message that wraps others is mapped from what it wraps: each wrapped value is unpacked and mapped one
level deeper, in order, up to the first that fails (`Registry.mapUnder_execute`). Four levels are allowed.
What is wrapped is never looked at where no further level is, so whoever sends the bytes cannot make the
mapping go deeper, and the events it gives are as deep at most (`Registry.mapAt_depth`).

* `Registry.map_chain_iff`: a chain of wrappers around a message that is mapped is mapped just if it is
  no longer than the limit.
* `Registry.wrappers_compose`: **what becomes of messages that wrap others.**
-/

namespace ChainIndex

open Wire (Bytes)
open Message (resolve eventOf)
open Message.Authorization (Execute innerEvents execute)

/-! ## Depth -/

namespace Event

theorem Bare.depth_eq {e : Event} (h : e.Bare) : e.depth = 1 := by
  rw [e.depth_eq, h.2]
  rfl

end Event

namespace Registry

/-- **An event is no deeper than the levels that are left**, and its own. -/
theorem mapAt_depth (r : Registry) (c : Context) (room : Nat) (m : Message) :
    Returns (fun e => e.depth ≤ room + 1) (r.mapAt c room m) := by
  refine r.mapAt_induction c (P := fun room e => e.depth ≤ room + 1) (fun room e he => ?_)
    (fun room e _ hsub => ?_) room m
  · rw [he.depth_eq]
    omega
  · rw [e.depth_eq]
    exact Nat.succ_le_succ (Event.depthList_le.2 hsub)

theorem standard_known (c : Context) (room : Nat) (kind : MessageKind) (payload : Bytes) :
    standard.mapAt c room (.known kind payload) =
      kind.map (standard.inner? c room) c payload := by
  rw [mapAt_known, if_pos]
  exact List.contains_iff_mem.2 kind.mem_all

end Registry

/-- Only a message that wraps others asks how these are mapped. -/
theorem MessageKind.map_eq {k : MessageKind} (hk : k ≠ .msgauthExecDelegated)
    (inner? other? : Option (RawMessage → Mapped Event)) (c : Context) (payload : Bytes) :
    k.map inner? c payload = k.map other? c payload := by
  cases k with
  | msgauthExecDelegated => exact absurd rfl hk
  | _ => rfl

/-! ## One level -/

namespace Message.Authorization

variable {c : Context} {map : RawMessage → Mapped Event}

/-- Wrapped values are all mapped, in order, or the first that is not decides. -/
theorem innerEvents_cases (c : Context) (map : RawMessage → Mapped Event) :
    ∀ (index : Nat) (raws : List Bytes),
    (∃ sub, List.Forall₂ (fun raw e => (c.unpack raw >>= map) = .ok e) raws sub ∧
      innerEvents c map index raws = .ok sub) ∨
    ∃ before raw rest source, raws = before ++ raw :: rest ∧
      (∀ b ∈ before, ∃ e, (c.unpack b >>= map) = .ok e) ∧ (c.unpack raw >>= map) = .error source ∧
      innerEvents c map index raws = .error (.inner (index + before.length) source) := by
  intro index raws
  induction raws generalizing index with
  | nil => exact .inl ⟨[], .nil, rfl⟩
  | cons raw rest ih =>
    cases hraw : (c.unpack raw >>= map) with
    | error source =>
      refine .inr ⟨[], raw, rest, source, rfl, List.forall_mem_nil _, hraw, ?_⟩
      rw [innerEvents, hraw]
      rfl
    | ok e =>
      have hnext : innerEvents c map index (raw :: rest) =
          (innerEvents c map (index + 1) rest >>= fun sub => pure (e :: sub)) := by
        rw [innerEvents, hraw]
        rfl
      rw [hnext]
      rcases ih (index + 1) with
        ⟨sub, hsub, hok⟩ | ⟨before, failing, after, source, rfl, hbefore, hfailing, herror⟩
      · exact .inl ⟨e :: sub, .cons hraw hsub, by rw [hok]; rfl⟩
      · refine .inr ⟨raw :: before, failing, after, source, rfl,
          List.forall_mem_cons.2 ⟨⟨e, hraw⟩, hbefore⟩, hfailing, ?_⟩
        rw [herror, List.length_cons, Nat.add_right_comm, Nat.add_assoc]
        rfl

theorem execute_write_none {m : Execute} (hsize : (Execute.layout.write m).length < UInt64.size) :
    execute none c (Execute.layout.write m) = .error .nestedTooDeep := by
  rw [execute, readAs_write Execute.faithful (by decide) "MsgExecAuthorized" hsize]
  rfl

theorem execute_write_some {m : Execute} (hsize : (Execute.layout.write m).length < UInt64.size) :
    execute (some map) c (Execute.layout.write m) = (do
      let grantee ← c.account "grantee" m.grantee
      let sub ← innerEvents c map 0 m.messages
      return { (eventOf .msgauthExecDelegated).withNode "grantee" grantee with sub }) := by
  rw [execute, readAs_write Execute.faithful (by decide) "MsgExecAuthorized" hsize]
  rfl

end Message.Authorization

namespace Registry

/-- The event of a message inside so many others. -/
def mapUnder (r : Registry) (c : Context) (wrappers : Nat) (m : Message) : Mapped Event :=
  r.mapAt c (wrapperLimit - wrappers) m

/-- The event of a wrapped value inside so many messages: it is unpacked first. -/
def mapPacked (r : Registry) (c : Context) (wrappers : Nat) (raw : Bytes) : Mapped Event :=
  c.unpack raw >>= fun packed => r.mapUnder c wrappers (resolve packed)

end Registry

/-- What can become of a message that wraps others, itself inside so many others. -/
inductive Unwraps (c : Context) (wrappers : Nat) (m : Execute) : Mapped Event → Prop where
  /-- No further level is allowed, whatever is wrapped. -/
  | tooDeep (hdeep : wrapperLimit ≤ wrappers) : Unwraps c wrappers m (.error .nestedTooDeep)
  | grantee {source : Address.Error} (hroom : wrappers < wrapperLimit)
    (hgrantee : Address.normalize m.grantee .account c.encoding = .error source) :
    Unwraps c wrappers m (.error (.address "grantee" source))
  /-- The first wrapped message that fails. -/
  | inner {id : String} {before : List Bytes} {raw : Bytes} {rest : List Bytes} {source : MapError}
    (hroom : wrappers < wrapperLimit)
    (hgrantee : Address.normalize m.grantee .account c.encoding = .ok id)
    (hsplit : m.messages = before ++ raw :: rest)
    (hbefore : ∀ b ∈ before, ∃ e, Registry.standard.mapPacked c (wrappers + 1) b = .ok e)
    (hraw : Registry.standard.mapPacked c (wrappers + 1) raw = .error source) :
    Unwraps c wrappers m (.error (.inner before.length source))
  /-- Each wrapped message has its event. -/
  | mapped {id : String} {sub : List Event} (hroom : wrappers < wrapperLimit)
    (hgrantee : Address.normalize m.grantee .account c.encoding = .ok id)
    (hsub : List.Forall₂ (fun raw e => Registry.standard.mapPacked c (wrappers + 1) raw = .ok e)
      m.messages sub) :
    Unwraps c wrappers m
      (.ok { (eventOf .msgauthExecDelegated).withNode "grantee" { id } with sub })

namespace Registry

variable (c : Context)

/-- **A message that wraps others is mapped from what it wraps.** -/
theorem mapUnder_execute (wrappers : Nat) {m : Execute}
    (hsize : (Execute.layout.write m).length < UInt64.size) : Unwraps c wrappers m
      (standard.mapUnder c wrappers (.known .msgauthExecDelegated (Execute.layout.write m))) := by
  have hmap : standard.mapUnder c wrappers (.known .msgauthExecDelegated (Execute.layout.write m)) =
      execute (standard.inner? c (wrapperLimit - wrappers)) c (Execute.layout.write m) :=
    standard_known c _ _ _
  rw [hmap]
  cases hroom : wrapperLimit - wrappers with
  | zero =>
    rw [inner?, Message.Authorization.execute_write_none hsize]
    exact .tooDeep (Nat.le_of_sub_eq_zero hroom)
  | succ room =>
    have hless : wrappers < wrapperLimit := by omega
    have hinner : standard.inner? c (room + 1) =
        some fun packed => standard.mapUnder c (wrappers + 1) (resolve packed) := by
      unfold mapUnder
      rw [show wrapperLimit - (wrappers + 1) = room by omega]
      rfl
    rw [hinner, Message.Authorization.execute_write_some hsize, Context.account, Context.address]
    cases hgrantee : Address.normalize m.grantee .account c.encoding with
    | error source => exact .grantee hless hgrantee
    | ok id =>
      rcases Message.Authorization.innerEvents_cases c
          (fun packed => standard.mapUnder c (wrappers + 1) (resolve packed)) 0 m.messages with
        ⟨sub, hsub, hok⟩ | ⟨before, raw, rest, source, hsplit, hbefore, hraw, herror⟩
      · rw [hok]
        exact .mapped hless hgrantee hsub
      · rw [herror, Nat.zero_add]
        exact .inner hless hgrantee hsplit hbefore hraw

end Registry

/-! ## Chains -/

/-- So many messages, each of which wraps just the next one, around one that wraps none and is mapped. -/
inductive WrapperChain (c : Context) : Nat → Message → Prop where
  | core {kind : MessageKind} {payload : Bytes} {e : Event} (hkind : kind ≠ .msgauthExecDelegated)
    (hmaps : Registry.standard.map c (.known kind payload) = .ok e) :
    WrapperChain c 0 (.known kind payload)
  | wrap {length : Nat} {m : Execute} {id : String} {raw : Bytes} {packed : RawMessage}
    (hgrantee : Address.normalize m.grantee .account c.encoding = .ok id)
    (hraw : m.messages = [raw]) (hpacked : c.unpack raw = .ok packed)
    (hinner : WrapperChain c length (resolve packed))
    (hsize : (Execute.layout.write m).length < UInt64.size) :
    WrapperChain c (length + 1) (.known .msgauthExecDelegated (Execute.layout.write m))

namespace Registry

variable {c : Context}

/-- A chain is mapped where there is room for its wrappers. -/
theorem mapUnder_chain_iff {length : Nat} {m : Message} (h : WrapperChain c length m) (wrappers : Nat) :
    (∃ e, standard.mapUnder c wrappers m = .ok e) ↔ length ≤ wrapperLimit - wrappers := by
  -- on the chain, from the message in its middle outwards
  induction h generalizing wrappers with
  | @core kind payload e hkind hmaps =>
    refine iff_of_true ⟨e, ?_⟩ (Nat.zero_le _)
    rw [map, standard_known] at hmaps
    rw [mapUnder, standard_known, ← hmaps]
    exact kind.map_eq hkind _ _ c payload
  | @wrap length m id raw packed hgrantee hraw hpacked hinner hsize ih =>
    have hdeeper : standard.mapPacked c (wrappers + 1) raw =
        standard.mapUnder c (wrappers + 1) (resolve packed) := by
      rw [mapPacked, hpacked]
      rfl
    have hih := ih (wrappers + 1)
    have hresult := mapUnder_execute c wrappers hsize
    generalize standard.mapUnder c wrappers _ = result at hresult ⊢
    cases hresult with
    | tooDeep hdeep =>
      refine iff_of_false nofun ?_
      omega
    | grantee hroom hfails => cases hgrantee.symm.trans hfails
    | @inner _ before failing rest source hroom _ hsplit _ hfails =>
      have hfailing : failing = raw := by
        rw [hraw] at hsplit
        cases before with
        | nil => exact (List.cons.inj hsplit).1.symm
        | cons b before => simp at hsplit
      rw [hfailing, hdeeper] at hfails
      have hnone : ¬ length ≤ wrapperLimit - (wrappers + 1) := by
        rw [← hih, hfails]
        nofun
      refine iff_of_false nofun ?_
      omega
    | @mapped _ sub hroom _ hsub =>
      have hsome : length ≤ wrapperLimit - (wrappers + 1) := by
        rw [hraw] at hsub
        cases hsub with
        | @cons _ e _ _ he _ => exact hih.1 ⟨e, hdeeper ▸ he⟩
      refine iff_of_true ⟨_, rfl⟩ ?_
      omega

/-- A chain of wrappers is mapped just if it is no longer than the limit. -/
theorem map_chain_iff {length : Nat} {m : Message} (h : WrapperChain c length m) :
    (∃ e, standard.map c m = .ok e) ↔ length ≤ wrapperLimit :=
  mapUnder_chain_iff h 0

/-- **Messages that wrap others.** Inside any number of others, such a message is mapped from what it
wraps: it fails where no level is left, whatever it wraps, otherwise for its grantee, otherwise for the
first wrapped message that fails, and otherwise wraps the events of these in order. So at the top a chain of
wrappers around a message that is mapped is mapped just if it is no longer than the limit, and no event
that any bytes are mapped to wraps events deeper than that. -/
theorem wrappers_compose (c : Context) :
    (∀ (wrappers : Nat) (m : Execute), (Execute.layout.write m).length < UInt64.size →
      Unwraps c wrappers m
        (standard.mapUnder c wrappers (.known .msgauthExecDelegated (Execute.layout.write m)))) ∧
    (∀ length m, WrapperChain c length m → ((∃ e, standard.map c m = .ok e) ↔ length ≤ wrapperLimit)) ∧
    ∀ m e, standard.map c m = .ok e → e.depth ≤ wrapperLimit + 1 :=
  ⟨fun wrappers _ hsize => mapUnder_execute c wrappers hsize, fun _ _ => map_chain_iff,
    fun m e h => standard.mapAt_depth c wrapperLimit m e h⟩

end Registry

/-! ## Portable messages in chains -/

namespace Portable

/-- A message in the name of another, so many times over. -/
def nest (m : Portable) (grantee : Bytes) : Nat → Portable
  | 0 => m
  | n + 1 => .execute grantee [m.nest grantee n]

variable {e : Encoding} {log : LogEntry}

/-- A plain message that is mapped stands in the middle of chains of every length. -/
theorem chain_nest {p : Plain} {w : p.kind.Wrapping} {event : Event} (grantee : Bytes)
    (hmaps : Registry.standard.map ⟨e, log⟩ (.known p.kind (p.payload e)) = .ok event) (n : Nat)
    (hsize : (((plain p w).nest grantee n).payload e).length < UInt64.size) :
    WrapperChain ⟨e, log⟩ n
      (.known ((plain p w).nest grantee n).kind (((plain p w).nest grantee n).payload e)) := by
  induction n with
  | zero =>
    have hkind : p.kind ≠ .msgauthExecDelegated := by cases p <;> nofun
    exact .core hkind hmaps
  | succ n ih =>
    generalize hm : (plain p w).nest grantee n = m at ih
    have hnest : (plain p w).nest grantee (n + 1) = .execute grantee [m] := by
      rw [nest, hm]
    rw [hnest] at hsize ⊢
    have hwrap := Execute.length_lt hsize (m.wrapping.wrap (m.payload e) e) List.mem_cons_self
    obtain ⟨packed, hpacked, hresolve⟩ := m.wrapping.unpack_wrap (m.payload e) log hwrap
    have hinner := ih (Nat.lt_of_le_of_lt (m.wrapping.length_le_wrap _ e) hwrap)
    have hgrantee := of_mapError_ok (Context.address_carried e log "grantee" grantee .account)
    exact .wrap hgrantee rfl hpacked (hresolve ▸ hinner) hsize

end Portable

/-- A transfer in the name of another, so many times over. -/
def nestedSend (n : Nat) : Portable :=
  .nest (.plain (.bankSend { amount := [⟨"uluna", "150"⟩] })
    { name := "bank/MsgSend", url := "/cosmos.bank.v1beta1.MsgSend" }) [7] n

/-- Four times over is allowed, and five times is not. -/
theorem Registry.wrappers_compose_send :
    let c : Context := { encoding := .proto }
    let message (n : Nat) : Message := .known (nestedSend n).kind ((nestedSend n).payload .proto)
    WrapperChain c 4 (message 4) ∧ WrapperChain c 5 (message 5) ∧
      (∃ e, standard.map c (message 4) = .ok e ∧ e.depth ≤ 5) ∧
      ¬ ∃ e, standard.map c (message 5) = .ok e := by
  intro c message
  obtain ⟨event, hevent⟩ : ∃ event, standard.map c (message 0) = .ok event := by
    have hok : (standard.map c (message 0)).isOk := by decide +kernel
    cases hsend : standard.map c (message 0) with
    | ok event => exact ⟨event, rfl⟩
    | error source =>
      rw [hsend] at hok
      cases hok
  have hsize : ∀ n ∈ [4, 5], ((nestedSend n).payload .proto).length < UInt64.size := by
    decide +kernel
  have hchain : ∀ n ∈ [4, 5], WrapperChain c n (message n) := fun n hn =>
    Portable.chain_nest [7] hevent n (hsize n hn)
  have hfour := hchain 4 (by decide)
  have hfive := hchain 5 (by decide)
  obtain ⟨-, hchains, hdepth⟩ := wrappers_compose c
  obtain ⟨e, he⟩ := (hchains 4 (message 4) hfour).2 (by decide)
  refine ⟨hfour, hfive, ⟨e, he, hdepth _ e he⟩, ?_⟩
  rw [hchains 5 (message 5) hfive]
  decide

end ChainIndex
