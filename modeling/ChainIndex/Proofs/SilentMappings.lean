import ChainIndex.Message.Registry
import Mathlib.Data.List.Basic

/-!
# A mapped message tells no error

The mapping of a message does not look at whether the message succeeded. Whatever it makes of the message
and its log entry has no error, and no event in it unless the message wraps others (`Event.Bare`). Each way
to add something to an event keeps this, and so does the mapping of each kind (`MessageKind.map_bare`). What
wraps others tells no error either if they tell none.

* `Registry.mapAt_induction`: what is shown of the events that a registry maps to.
* `Registry.map_silent`: **every event that a registry maps a message to is silent**, however deep.
-/

namespace ChainIndex

open Wire (Bytes)

namespace Event

/-- Neither the event nor any event wrapped in it carries an error. -/
inductive Silent : Event → Prop where
  | intro {e : Event} (herror : e.error = none) (hsub : ∀ s ∈ e.sub, s.Silent) : Silent e

/-- An event that carries no error and wraps no others. -/
def Bare (e : Event) : Prop :=
  e.error = none ∧ e.sub = []

variable {e e' : Event}

theorem Bare.silent (h : e.Bare) : e.Silent :=
  ⟨h.1, by simp [h.2]⟩

/-- Nothing but the error and the wrapped events matters. -/
theorem bare_congr (herror : e'.error = e.error) (hsub : e'.sub = e.sub) : e'.Bare ↔ e.Bare := by
  unfold Bare
  rw [herror, hsub]

variable (e) (key : String)

@[simp]
theorem withNode_bare (account : Account) : (e.withNode key account).Bare ↔ e.Bare :=
  bare_congr rfl rfl

@[simp]
theorem withAmount_bare (amount : Amount) : (e.withAmount key amount).Bare ↔ e.Bare :=
  bare_congr rfl rfl

@[simp]
theorem withAdditional_bare (values : List String) :
    (e.withAdditional key values).Bare ↔ e.Bare :=
  bare_congr rfl rfl

@[simp]
theorem withText_bare (value : String) : (e.withText key value).Bare ↔ e.Bare :=
  bare_congr rfl rfl

@[simp]
theorem withSender_bare (m : Movement) : (e.withSender m).Bare ↔ e.Bare :=
  bare_congr rfl rfl

@[simp]
theorem withRecipient_bare (m : Movement) : (e.withRecipient m).Bare ↔ e.Bare :=
  bare_congr rfl rfl

@[simp]
theorem withProof_bare (raw : Bytes) : (e.withProof key raw).Bare ↔ e.Bare :=
  bare_congr rfl rfl

@[simp]
theorem withPacked_bare (value : Option Protobuf.Packed) :
    (e.withPacked key value).Bare ↔ e.Bare :=
  bare_congr rfl rfl

@[simp]
theorem withHeight_bare (value : Option Message.Ibc.Height) :
    (e.withHeight key value).Bare ↔ e.Bare :=
  bare_congr rfl rfl

@[simp]
theorem withConnectionVersion_bare (value : Option Message.Ibc.ConnectionVersion) :
    (e.withConnectionVersion value).Bare ↔ e.Bare :=
  bare_congr rfl rfl

@[simp]
theorem withConnectionCounterparty_bare (value : Option Message.Ibc.ConnectionCounterparty) :
    (e.withConnectionCounterparty value).Bare ↔ e.Bare :=
  bare_congr rfl rfl

@[simp]
theorem withChannel_bare (value : Option Message.Ibc.Channel) :
    (e.withChannel value).Bare ↔ e.Bare :=
  bare_congr rfl rfl

@[simp]
theorem withPacket_bare (value : Option Message.Ibc.Packet) :
    (e.withPacket value).Bare ↔ e.Bare :=
  bare_congr rfl rfl

@[simp]
theorem ite_bare {c : Prop} [Decidable c] :
    (if c then e else e').Bare ↔ (c → e.Bare) ∧ (¬c → e'.Bare) := by
  split <;> simp_all

theorem foldl_bare {α : Type} {f : Event → α → Event} (hf : ∀ e a, (f e a).Bare ↔ e.Bare)
    (as : List α) : (as.foldl f e).Bare ↔ e.Bare := by
  induction as generalizing e with
  | nil => exact Iff.rfl
  | cons a as ih => exact (ih (f e a)).trans (hf e a)

end Event

namespace Message

@[simp]
theorem eventOf_bare (kind : MessageKind) : (eventOf kind).Bare :=
  ⟨rfl, rfl⟩

@[simp]
theorem withNumbered_bare (name : String) (amounts : List Amount) (e : Event) :
    (withNumbered name amounts e).Bare ↔ e.Bare :=
  e.foldl_bare (fun _ _ => Event.withAmount_bare _ _ _) _

@[simp]
theorem Wasm.withInitCoins_bare (amounts : List Amount) (e : Event) :
    (Wasm.withInitCoins amounts e).Bare ↔ e.Bare :=
  e.foldl_bare (fun _ _ => Event.withAmount_bare _ _ _) _

@[simp]
theorem Ibc.signed_bare (kind : MessageKind) (signer : String) :
    (Ibc.signed kind signer).Bare := by
  simp [Ibc.signed]

end Message

/-! ## Mappings -/

/-- A result, if there is one, has a property. -/
def Returns {α : Type} (P : α → Prop) (x : Mapped α) : Prop :=
  ∀ a, x = .ok a → P a

namespace Returns

variable {α β : Type} {P : α → Prop} {Q : β → Prop}

@[simp]
theorem pure_iff (a : α) : Returns P (pure a : Mapped α) ↔ P a :=
  ⟨fun h => h a rfl, fun h b hb => by cases hb; exact h⟩

@[simp]
theorem error (e : MapError) : Returns P (.error e : Mapped α) :=
  nofun

@[simp]
theorem bind_iff (x : Mapped α) (f : α → Mapped β) :
    Returns Q (x >>= f) ↔ Returns (fun a => Returns Q (f a)) x := by
  cases x with
  | error e => exact iff_of_true (error e) (error e)
  | ok a => exact (pure_iff (P := fun a => Returns Q (f a)) a).symm

@[simp]
theorem map_iff (x : Mapped α) (f : α → β) :
    Returns Q (f <$> x) ↔ Returns (fun a => Q (f a)) x := by
  cases x with
  | error e => exact iff_of_true (error e) (error e)
  | ok a => exact (pure_iff (f a)).trans (pure_iff (P := fun a => Q (f a)) a).symm

@[simp]
theorem ite_iff {c : Prop} [Decidable c] (x y : Mapped α) :
    Returns P (if c then x else y) ↔ (c → Returns P x) ∧ (¬c → Returns P y) := by
  split <;> simp_all

theorem mapError {x : Mapped α} (h : Returns P x) (wrap : MapError → MapError) :
    Returns P (x.mapError wrap) := by
  cases x with
  | error e => exact error (wrap e)
  | ok a => exact h

theorem imp {P' : α → Prop} {x : Mapped α} (h : Returns P x) (himp : ∀ a, P a → P' a) :
    Returns P' x :=
  fun a ha => himp a (h a ha)

@[simp]
theorem trivially (x : Mapped α) : Returns (fun _ => True) x :=
  fun _ _ => trivial

end Returns

theorem Event.withTransfers_bare {e t : Event} {kind skipped : String} {entry : LogEntry}
    (h : e.withTransfers kind skipped entry = .ok t) : t.Bare ↔ e.Bare := by
  obtain ⟨transfers, rfl⟩ := of_withTransfers_ok h
  exact bare_congr rfl rfl

@[simp]
theorem Context.addTransfers_bare (c : Context) (kind skipped : String) {e : Event}
    (h : e.Bare) : Returns Event.Bare (c.addTransfers kind skipped e) := by
  intro t ht
  unfold addTransfers at ht
  cases hadded : e.withTransfers kind skipped c.log with
  | error error =>
    rw [hadded] at ht
    cases ht
  | ok added =>
    rw [hadded] at ht
    cases ht
    exact (Event.withTransfers_bare hadded).2 h

/-! ## Kinds with a content of their own -/

namespace Message

section

variable {α : Type} (c : Context) (payload : Bytes)

/-- A message that is told as it was read. -/
theorem told_bare (l : Wire.Layout α) (name : String) {tell : α → Event}
    (h : ∀ m, (tell m).Bare) :
    Returns Event.Bare (readAs l name payload >>= fun m => pure (tell m)) := by
  simp [h]

theorem Bank.multiSend_bare : Returns Event.Bare (Bank.multiSend c payload) := by
  have hboth : ∀ senders recipients : List Movement,
      ({ eventOf .bankMultiSend with senders, recipients } : Event).Bare := fun _ _ =>
    ⟨rfl, rfl⟩
  simp [Bank.multiSend, hboth]

theorem Evidence.addEquivocation_bare {e : Event} (h : e.Bare) :
    Returns Event.Bare (Evidence.addEquivocation c payload e) := by
  simp only [Evidence.addEquivocation, Returns.bind_iff]
  refine fun m _ consensus _ => ?_
  split <;> simp [h]

theorem Evidence.submit_bare : Returns Event.Bare (Evidence.submit c payload) := by
  simp [Evidence.submit, Evidence.addEquivocation_bare]

theorem Gov.addContent_bare (content : RawMessage) {e : Event} (h : e.Bare) :
    Returns Event.Bare (Gov.addContent content e) := by
  simp [Gov.addContent, h]

theorem Gov.submitProposal_bare : Returns Event.Bare (Gov.submitProposal c payload) := by
  simp only [Gov.submitProposal, Returns.bind_iff]
  refine fun m _ proposer _ amounts _ => ?_
  -- a proposal without a content is told as well
  split
  · simp
  · simp only [Returns.bind_iff]
    refine fun content _ => (Gov.addContent_bare content ?_).imp fun e he => ?_
    · simp
    · simp [he]

theorem Authorization.granted_bare (grantee granter authorization : Bytes) :
    Returns Event.Bare (Authorization.granted c grantee granter authorization) := by
  simp [Authorization.granted]

theorem Authorization.grant_bare : Returns Event.Bare (Authorization.grant c payload) := by
  have hgranted := Authorization.granted_bare c
  unfold Authorization.grant
  split
  · simp [hgranted]
  · simp only [Returns.bind_iff]
    refine fun m _ => (hgranted _ _ _).imp fun e he => ?_
    split <;> simp [he]

theorem Oracle.voted_bare (kind : MessageKind) (validator feeder : Bytes) :
    Returns Event.Bare (Oracle.voted kind c validator feeder) := by
  simp [Oracle.voted]

theorem Staking.editValidator_bare : Returns Event.Bare (Staking.editValidator c payload) := by
  simp [Staking.editValidator]

theorem Wasm.instantiate_bare : Returns Event.Bare (Wasm.instantiate c payload) := by
  simp only [Wasm.instantiate, Returns.bind_iff]
  refine fun m _ amounts _ => ?_
  split <;> simp

end

end Message

/-- **The mapping of a kind gives a bare event**, unless it is a kind that wraps others. -/
theorem MessageKind.map_bare {k : MessageKind} (hk : k ≠ .msgauthExecDelegated)
    (inner? : Option (RawMessage → Mapped Event)) (c : Context) (payload : Bytes) :
    Returns Event.Bare (k.map inner? c payload) := by
  cases k with
  | bankSend => simp [map, Message.Bank.send]
  | bankMultiSend => exact Message.Bank.multiSend_bare c payload
  | crisisVerifyInvariant => simp [map, Message.Crisis.verifyInvariant]
  | distributionWithdrawValidatorCommission => simp [map, Message.Distribution.withdrawCommission]
  | distributionSetWithdrawAddress => simp [map, Message.Distribution.setWithdrawAddress]
  | distributionWithdrawDelegatorReward => simp [map, Message.Distribution.withdrawReward]
  | distributionFundCommunityPool => simp [map, Message.Distribution.fundCommunityPool]
  | evidenceSubmitEvidence => exact Message.Evidence.submit_bare c payload
  | govDeposit => simp [map, Message.Gov.deposit]
  | govVote => simp [map, Message.Gov.vote]
  | govSubmitProposal => exact Message.Gov.submitProposal_bare c payload
  | marketSwap => simp [map, Message.Market.swap]
  | marketSwapSend => simp [map, Message.Market.swapSend]
  | msgauthGrantAuthorization => exact Message.Authorization.grant_bare c payload
  | msgauthRevokeAuthorization => simp [map, Message.Authorization.revoke]
  | msgauthExecDelegated => exact absurd rfl hk
  | oracleExchangeRateVote => simp [map, Message.Oracle.rateVote, Message.Oracle.voted_bare]
  | oracleExchangeRatePrevote => simp [map, Message.Oracle.ratePrevote, Message.Oracle.voted_bare]
  | oracleDelegateFeeder => simp [map, Message.Oracle.delegateFeeder]
  | oracleAggregateExchangeRatePrevote =>
    simp [map, Message.Oracle.aggregatePrevote, Message.Oracle.voted_bare]
  | oracleAggregateExchangeRateVote =>
    simp [map, Message.Oracle.aggregateVote, Message.Oracle.voted_bare]
  | slashingUnjail => simp [map, Message.Slashing.unjail]
  | stakingBeginUnbonding => simp [map, Message.Staking.undelegate]
  | stakingEditValidator => exact Message.Staking.editValidator_bare c payload
  | stakingCreateValidator => simp [map, Message.Staking.createValidator]
  | stakingDelegate => simp [map, Message.Staking.delegate]
  | stakingBeginRedelegate => simp [map, Message.Staking.redelegate]
  | wasmExecuteContract => simp [map, Message.Wasm.execute]
  | wasmStoreCode => simp [map, Message.Wasm.storeCode]
  | wasmUpdateContractOwner => simp [map, Message.Wasm.updateOwner]
  | wasmInstantiateContract => exact Message.Wasm.instantiate_bare c payload
  | wasmMigrateContract => simp [map, Message.Wasm.migrate]
  | ibcTransfer => simp [map, Message.Ibc.transfer]
  -- the remaining kinds are told as they are read
  | _ => exact Message.told_bare payload _ _ fun m => by simp

/-! ## Messages that wrap others -/

namespace Message

variable (c : Context) (payload : Bytes) {P : Event → Prop}

theorem Authorization.innerEvents_all {map : RawMessage → Mapped Event}
    (hmap : ∀ raw, Returns P (map raw)) :
    ∀ index values, Returns (fun sub => ∀ s ∈ sub, P s)
      (Authorization.innerEvents c map index values) := by
  intro index values
  induction values generalizing index with
  | nil => exact (Returns.pure_iff []).2 (List.forall_mem_nil _)
  | cons raw rest ih =>
    have hinner : Returns P ((c.unpack raw >>= map).mapError (.inner index)) := by
      refine Returns.mapError ?_ _
      simp [hmap]
    simp only [Authorization.innerEvents, Returns.bind_iff, Returns.pure_iff]
    refine hinner.imp fun e he => (ih (index + 1)).imp fun sub hsub => ?_
    exact List.forall_mem_cons.2 ⟨he, hsub⟩

theorem Authorization.execute_none : Returns P (Authorization.execute none c payload) := by
  simp only [Authorization.execute, Returns.bind_iff]
  exact fun m _ => Returns.error _

theorem Authorization.execute_some {map : RawMessage → Mapped Event}
    (hmap : ∀ raw, Returns P (map raw)) :
    Returns (fun e => e.error = none ∧ ∀ s ∈ e.sub, P s)
      (Authorization.execute (some map) c payload) := by
  simp only [Authorization.execute, Returns.bind_iff, Returns.pure_iff]
  refine fun m _ grantee _ => ?_
  exact (Authorization.innerEvents_all c hmap 0 m.messages).imp fun sub hsub => ⟨rfl, hsub⟩

end Message

namespace Registry

variable (r : Registry) (c : Context)

/-- **Events by the levels that are left.** What holds of bare events, and of an event that wraps others if
it holds of these with one level less, holds of every event that a message is mapped to. -/
theorem mapAt_induction {P : Nat → Event → Prop} (hbare : ∀ room e, e.Bare → P room e)
    (hwraps : ∀ room e, e.error = none → (∀ s ∈ e.sub, P room s) → P (room + 1) e) :
    ∀ (room : Nat) (m : Message), Returns (P room) (r.mapAt c room m) := by
  have hplain : ∀ room {kind : MessageKind} inner? payload, kind ≠ .msgauthExecDelegated →
      Returns (P room) (kind.map inner? c payload) := fun room kind inner? payload hkind =>
    (kind.map_bare hkind inner? c payload).imp (hbare room)
  intro room
  induction room with
  | zero =>
    intro m
    cases m with
    | unknown typeTag payload => simp [mapAt]
    | known kind payload =>
      have hmap : Returns (P 0) (kind.map none c payload) := by
        by_cases hkind : kind = .msgauthExecDelegated
        · subst hkind
          exact Message.Authorization.execute_none c payload
        · exact hplain 0 none payload hkind
      simp [mapAt, hmap]
  | succ room ih =>
    intro m
    cases m with
    | unknown typeTag payload => simp [mapAt]
    | known kind payload =>
      -- what is wrapped has one level less
      have hmap : Returns (P (room + 1))
          (kind.map (some fun raw => r.mapAt c room (Message.resolve raw)) c payload) := by
        by_cases hkind : kind = .msgauthExecDelegated
        · subst hkind
          exact (Message.Authorization.execute_some c payload fun raw =>
            ih (Message.resolve raw)).imp fun e he => hwraps room e he.1 he.2
        · exact hplain (room + 1) _ payload hkind
      simp [mapAt, hmap]

/-- **Every event that a message is mapped to is silent**, whatever its log entry says. -/
theorem map_silent {m : Message} {e : Event} (h : r.map c m = .ok e) : e.Silent :=
  r.mapAt_induction c (fun _ _ => Event.Bare.silent) (fun _ _ => Event.Silent.intro)
    wrapperLimit m e h

end Registry

end ChainIndex
