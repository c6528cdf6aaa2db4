import ChainIndex.Message.Registry
import Mathlib.Data.List.Basic

/-!
# Unknown messages are told from broken ones

A message is unknown if nobody maps its type, and broken if its content fails. Reading any field, and
mapping a wrapped message, can only fail as content does (`Recognised`), and so can the mapping of each
kind, which is put together from these steps (`MessageKind.map_recognised`).

* `Registry.map_unknown_iff`: **a message fails as unknown exactly if its own type has no mapping**,
  whatever it wraps.
-/

namespace ChainIndex

open Wire (Bytes Layout)

/-- Nothing fails here because of an unknown type. -/
def Recognised {α : Type} (x : Mapped α) : Prop :=
  ∀ error, x = .error error → error.isUnknown = false

namespace Recognised

variable {α β ε : Type}

@[simp]
theorem ok (a : α) : Recognised (.ok a) := by
  intro error h
  cases h

@[simp]
theorem pure (a : α) : Recognised (Pure.pure a : Mapped α) :=
  ok a

@[simp]
theorem error_iff (e : MapError) : Recognised (.error e : Mapped α) ↔ e.isUnknown = false :=
  ⟨fun h => h e rfl, fun h error heq => by cases heq; exact h⟩

@[simp]
theorem bind_iff (x : Mapped α) (f : α → Mapped β) :
    Recognised (x >>= f) ↔ Recognised x ∧ ∀ a, x = .ok a → Recognised (f a) := by
  cases x with
  | ok a =>
    show Recognised (f a) ↔ _
    simp
  | error e =>
    show Recognised (.error e) ↔ _
    simp

@[simp]
theorem map_iff (x : Mapped α) (f : α → β) : Recognised (f <$> x) ↔ Recognised x := by
  cases x with
  | ok a => exact iff_of_true (ok (f a)) (ok a)
  | error e => exact (error_iff e).trans (error_iff e).symm

@[simp]
theorem ite_iff {c : Prop} [Decidable c] (x y : Mapped α) :
    Recognised (if c then x else y) ↔ (c → Recognised x) ∧ (¬c → Recognised y) := by
  split <;> simp_all

/-- A failure of something else is content. -/
theorem mapError {wrap : ε → MapError} (hwrap : ∀ e, (wrap e).isUnknown = false) (x : Except ε α) :
    Recognised (x.mapError wrap) := by
  cases x with
  | ok a => exact ok a
  | error e => exact (error_iff _).2 (hwrap e)

theorem mapM {f : α → Mapped β} (hf : ∀ a, Recognised (f a)) (as : List α) :
    Recognised (as.mapM f) := by
  induction as with
  | nil => exact pure []
  | cons a as ih =>
    rw [List.mapM_cons]
    simp [hf a, ih]

end Recognised

/-! ## The readers that all kinds share -/

section Readers

variable {α : Type} (c : Context) (field : String)

@[simp]
theorem Context.address_recognised (role : Role) (raw : Bytes) :
    Recognised (c.address role field raw) :=
  .mapError (fun _ => rfl) _

@[simp]
theorem Context.account_recognised (raw : Bytes) : Recognised (c.account field raw) := by
  simp [account]

@[simp]
theorem Context.validator_recognised (raw : Bytes) : Recognised (c.validator field raw) := by
  simp [validator]

@[simp]
theorem Context.unpack_recognised (raw : Bytes) : Recognised (c.unpack raw) :=
  .mapError (fun _ => rfl) _

@[simp]
theorem Context.addTransfers_recognised (kind skipped : String) (e : Event) :
    Recognised (c.addTransfers kind skipped e) :=
  .mapError (fun _ => rfl) _

namespace Message

@[simp]
theorem readAs_recognised (l : Layout α) (name : String) (payload : Bytes) :
    Recognised (readAs l name payload) :=
  .mapError (fun _ => rfl) _

/-- A message that is told as it was read. -/
theorem told_recognised (l : Layout α) (name : String) (payload : Bytes) (tell : α → Event) :
    Recognised (readAs l name payload >>= fun m => pure (tell m)) := by
  simp

@[simp]
theorem coin_recognised (coin : Coin) : Recognised (Message.coin field coin) :=
  .mapError (fun _ => rfl) _

@[simp]
theorem coins_recognised (coins : List Coin) : Recognised (Message.coins field coins) :=
  .mapM (coin_recognised field) coins

@[simp]
theorem requiredCoin_recognised (coin : Option Coin) : Recognised (requiredCoin field coin) := by
  cases coin with
  | some coin => exact coin_recognised field coin
  | none => exact (Recognised.error_iff _).2 rfl

@[simp]
theorem plainAmount_recognised (text : String) : Recognised (plainAmount field text) :=
  .mapError (fun _ => rfl) _

@[simp]
theorem fixedPoint_recognised (currency text : String) :
    Recognised (fixedPoint field currency text) :=
  .mapError (fun _ => rfl) _

@[simp]
theorem Oracle.voted_recognised (kind : MessageKind) (validator feeder : Bytes) :
    Recognised (Oracle.voted kind c validator feeder) := by
  simp [Oracle.voted]

end Message

end Readers

/-! ## Kinds with a content of their own -/

namespace Message

variable (c : Context) (payload : Bytes)

theorem Bank.multiSend_recognised : Recognised (Bank.multiSend c payload) := by
  have hside : ∀ field side, Recognised (Bank.Side.movement c field side) := by
    intro field side
    simp [Bank.Side.movement]
  simp [Bank.multiSend, Recognised.mapM (hside _)]

theorem Evidence.submit_recognised : Recognised (Evidence.submit c payload) := by
  have hequivocation : ∀ payload e, Recognised (Evidence.addEquivocation c payload e) := by
    intro payload e
    simp only [Evidence.addEquivocation, Recognised.bind_iff, readAs_recognised,
      Context.address_recognised, true_and]
    intro m _ consensus _
    split <;> exact Recognised.pure _
  simp [Evidence.submit, hequivocation]

theorem Gov.submitProposal_recognised : Recognised (Gov.submitProposal c payload) := by
  have hcontent : ∀ content e, Recognised (Gov.addContent content e) := by
    intro content e
    simp [Gov.addContent]
  simp [Gov.submitProposal, hcontent]

theorem Authorization.grant_recognised : Recognised (Authorization.grant c payload) := by
  have hcovered : ∀ authorization, Recognised (Authorization.coveredType c authorization) := by
    intro authorization
    simp only [Authorization.coveredType, Recognised.ite_iff, Recognised.bind_iff, Recognised.pure,
      Context.unpack_recognised, implies_true, true_and]
    intro _ a _
    split <;> simp
  have hgranted : ∀ grantee granter authorization,
      Recognised (Authorization.granted c grantee granter authorization) := by
    intro grantee granter authorization
    simp [Authorization.granted, hcovered]
  unfold Authorization.grant
  split
  · simp [hgranted]
  · simp only [Recognised.bind_iff, readAs_recognised, hgranted, true_and]
    intro m _ e _
    split <;> exact Recognised.pure _

theorem Authorization.innerEvents_recognised (map : RawMessage → Mapped Event) :
    ∀ index values, Recognised (Authorization.innerEvents c map index values) := by
  intro index values
  induction values generalizing index with
  | nil => exact .ok []
  | cons raw rest ih =>
    -- whatever goes wrong inside, it went wrong inside
    have hinner : Recognised ((c.unpack raw >>= map).mapError (.inner index)) :=
      .mapError (fun _ => rfl) _
    simp [Authorization.innerEvents, hinner, ih]

theorem Authorization.execute_recognised (map? : Option (RawMessage → Mapped Event)) :
    Recognised (Authorization.execute map? c payload) := by
  cases map? with
  | none =>
    simp only [Authorization.execute, Recognised.bind_iff, readAs_recognised, true_and]
    intro m _
    exact (Recognised.error_iff _).2 rfl
  | some map => simp [Authorization.execute, Authorization.innerEvents_recognised]

theorem Staking.editValidator_recognised : Recognised (Staking.editValidator c payload) := by
  simp [Staking.editValidator]

theorem Wasm.instantiate_recognised : Recognised (Wasm.instantiate c payload) := by
  have hread : Recognised (Wasm.readInstantiate c payload) := by
    unfold Wasm.readInstantiate
    split <;> simp
  simp [Wasm.instantiate, hread]

end Message

/-- **The mapping of a kind fails only for the content** of the message. -/
theorem MessageKind.map_recognised (k : MessageKind) (inner? : Option (RawMessage → Mapped Event))
    (c : Context) (payload : Bytes) : Recognised (k.map inner? c payload) := by
  cases k with
  | bankSend => simp [map, Message.Bank.send]
  | bankMultiSend => exact Message.Bank.multiSend_recognised c payload
  | crisisVerifyInvariant => simp [map, Message.Crisis.verifyInvariant]
  | distributionWithdrawValidatorCommission => simp [map, Message.Distribution.withdrawCommission]
  | distributionSetWithdrawAddress => simp [map, Message.Distribution.setWithdrawAddress]
  | distributionWithdrawDelegatorReward => simp [map, Message.Distribution.withdrawReward]
  | distributionFundCommunityPool => simp [map, Message.Distribution.fundCommunityPool]
  | evidenceSubmitEvidence => exact Message.Evidence.submit_recognised c payload
  | govDeposit => simp [map, Message.Gov.deposit]
  | govVote => simp [map, Message.Gov.vote]
  | govSubmitProposal => exact Message.Gov.submitProposal_recognised c payload
  | marketSwap => simp [map, Message.Market.swap]
  | marketSwapSend => simp [map, Message.Market.swapSend]
  | msgauthGrantAuthorization => exact Message.Authorization.grant_recognised c payload
  | msgauthRevokeAuthorization => simp [map, Message.Authorization.revoke]
  | msgauthExecDelegated => exact Message.Authorization.execute_recognised c payload inner?
  | oracleExchangeRateVote => simp [map, Message.Oracle.rateVote]
  | oracleExchangeRatePrevote => simp [map, Message.Oracle.ratePrevote]
  | oracleDelegateFeeder => simp [map, Message.Oracle.delegateFeeder]
  | oracleAggregateExchangeRatePrevote => simp [map, Message.Oracle.aggregatePrevote]
  | oracleAggregateExchangeRateVote => simp [map, Message.Oracle.aggregateVote]
  | slashingUnjail => simp [map, Message.Slashing.unjail]
  | stakingBeginUnbonding => simp [map, Message.Staking.undelegate]
  | stakingEditValidator => exact Message.Staking.editValidator_recognised c payload
  | stakingCreateValidator => simp [map, Message.Staking.createValidator]
  | stakingDelegate => simp [map, Message.Staking.delegate]
  | stakingBeginRedelegate => simp [map, Message.Staking.redelegate]
  | wasmExecuteContract => simp [map, Message.Wasm.execute]
  | wasmStoreCode => simp [map, Message.Wasm.storeCode]
  | wasmUpdateContractOwner => simp [map, Message.Wasm.updateOwner]
  | wasmInstantiateContract => exact Message.Wasm.instantiate_recognised c payload
  | wasmMigrateContract => simp [map, Message.Wasm.migrate]
  | ibcTransfer => simp [map, Message.Ibc.transfer]
  -- the remaining kinds are read and told, without anything that could fail in between
  | _ => exact Message.told_recognised _ _ payload _

/-! ## Whose type is unknown -/

namespace Registry

variable (r : Registry) (c : Context)

theorem map_known {k : MessageKind} (h : r.contains k = true) (payload : Bytes) :
    Recognised (r.map c (.known k payload)) := by
  show Recognised (if r.contains k then k.map _ c payload else _)
  rw [if_pos h]
  exact k.map_recognised _ c payload

theorem map_unmapped {k : MessageKind} (h : ¬r.contains k = true) (payload : Bytes) :
    r.map c (.known k payload) = .error (.unknown k.type) :=
  if_neg h

/-- **A message fails as unknown exactly if its own type has no mapping.** -/
theorem map_unknown_iff (m : Message) :
    (∃ error, r.map c m = .error error ∧ error.isUnknown = true) ↔
      ∀ k payload, m = .known k payload → r.contains k = false := by
  cases m with
  | unknown typeTag payload =>
    exact iff_of_true ⟨.unknown typeTag, rfl, rfl⟩ fun _ _ h => by cases h
  | known k payload =>
    constructor
    · rintro ⟨error, herror, hunknown⟩ k' payload' h
      cases h
      by_contra hcontains
      have hknown := r.map_known c (by simpa using hcontains) payload error herror
      exact Bool.false_ne_true (hknown.symm.trans hunknown)
    · intro h
      have hmiss : ¬r.contains k = true := by simp [h k payload rfl]
      exact ⟨.unknown k.type, r.map_unmapped c hmiss payload, rfl⟩

end Registry

end ChainIndex
