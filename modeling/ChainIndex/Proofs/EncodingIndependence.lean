import ChainIndex.Message.Registry
import ChainIndex.Proofs.UniformMessages

/-!
# The event of a message does not depend on its encoding

A message that looks the same in both encodings is written in each of them, with its addresses and digests
as that encoding carries them. So is one that wraps such messages, to any depth: what it wraps is written
in the same encoding and packed with its name or its type URL.

* `Plain.payload`, `Portable.payload`: a message in an encoding.
* `encoding_independent`: **both are mapped to the same event, or fail with the same error**, with any
  registry, any log and any number of levels left.
-/

namespace ChainIndex

open Wire (Bytes)
open Message

/-! ## The messages -/

/-- A message without others inside, of a kind whose layout is the same in both encodings. Its addresses
and digests are bytes. -/
inductive Plain where
  | bankSend (m : Bank.Send)
  | bankMultiSend (m : Bank.MultiSend)
  | crisisVerifyInvariant (m : Crisis.VerifyInvariant)
  | distributionWithdrawCommission (m : Distribution.WithdrawCommission)
  | distributionSetWithdrawAddress (m : Distribution.SetWithdrawAddress)
  | distributionWithdrawReward (m : Distribution.WithdrawReward)
  | distributionFundCommunityPool (m : Distribution.FundCommunityPool)
  | govDeposit (m : Gov.Deposit)
  | govVote (m : Gov.Vote)
  | marketSwap (m : Market.Swap)
  | marketSwapSend (m : Market.SwapSend)
  | authorizationRevoke (m : Authorization.Revoke)
  | oracleRateVote (m : Oracle.RateVote)
  | oracleRatePrevote (m : Oracle.RatePrevote)
  | oracleDelegateFeeder (m : Oracle.DelegateFeeder)
  | oracleAggregatePrevote (m : Oracle.AggregatePrevote)
  | oracleAggregateVote (m : Oracle.AggregateVote)
  | slashingUnjail (m : Slashing.Unjail)
  | stakingUndelegate (m : Staking.Delegate)
  | stakingEditValidator (m : Staking.EditValidator)
  | stakingCreateValidator (m : Staking.CreateValidator)
  | stakingDelegate (m : Staking.Delegate)
  | stakingRedelegate (m : Staking.Redelegate)
  | wasmExecute (m : Wasm.Execute)
  | wasmStoreCode (m : Wasm.StoreCode)
  | wasmUpdateOwner (m : Wasm.UpdateOwner)
  | wasmMigrate (m : Wasm.Migrate)

namespace Plain

def kind : Plain → MessageKind
  | bankSend _ => .bankSend
  | bankMultiSend _ => .bankMultiSend
  | crisisVerifyInvariant _ => .crisisVerifyInvariant
  | distributionWithdrawCommission _ => .distributionWithdrawValidatorCommission
  | distributionSetWithdrawAddress _ => .distributionSetWithdrawAddress
  | distributionWithdrawReward _ => .distributionWithdrawDelegatorReward
  | distributionFundCommunityPool _ => .distributionFundCommunityPool
  | govDeposit _ => .govDeposit
  | govVote _ => .govVote
  | marketSwap _ => .marketSwap
  | marketSwapSend _ => .marketSwapSend
  | authorizationRevoke _ => .msgauthRevokeAuthorization
  | oracleRateVote _ => .oracleExchangeRateVote
  | oracleRatePrevote _ => .oracleExchangeRatePrevote
  | oracleDelegateFeeder _ => .oracleDelegateFeeder
  | oracleAggregatePrevote _ => .oracleAggregateExchangeRatePrevote
  | oracleAggregateVote _ => .oracleAggregateExchangeRateVote
  | slashingUnjail _ => .slashingUnjail
  | stakingUndelegate _ => .stakingBeginUnbonding
  | stakingEditValidator _ => .stakingEditValidator
  | stakingCreateValidator _ => .stakingCreateValidator
  | stakingDelegate _ => .stakingDelegate
  | stakingRedelegate _ => .stakingBeginRedelegate
  | wasmExecute _ => .wasmExecuteContract
  | wasmStoreCode _ => .wasmStoreCode
  | wasmUpdateOwner _ => .wasmUpdateContractOwner
  | wasmMigrate _ => .wasmMigrateContract

/-- The message as bytes. -/
def payload (p : Plain) (e : Encoding) : Bytes :=
  match p with
  | bankSend m => Bank.Send.layout.write (m.carried e)
  | bankMultiSend m => Bank.MultiSend.layout.write (m.carried e)
  | crisisVerifyInvariant m => Crisis.VerifyInvariant.layout.write (m.carried e)
  | distributionWithdrawCommission m => Distribution.WithdrawCommission.layout.write (m.carried e)
  | distributionSetWithdrawAddress m => Distribution.SetWithdrawAddress.layout.write (m.carried e)
  | distributionWithdrawReward m => Distribution.WithdrawReward.layout.write (m.carried e)
  | distributionFundCommunityPool m => Distribution.FundCommunityPool.layout.write (m.carried e)
  | govDeposit m => Gov.Deposit.layout.write (m.carried e)
  | govVote m => Gov.Vote.layout.write (m.carried e)
  | marketSwap m => Market.Swap.layout.write (m.carried e)
  | marketSwapSend m => Market.SwapSend.layout.write (m.carried e)
  | authorizationRevoke m => Authorization.Revoke.layout.write (m.carried e)
  | oracleRateVote m => Oracle.RateVote.layout.write (m.carried e)
  | oracleRatePrevote m => Oracle.RatePrevote.layout.write (m.carried e)
  | oracleDelegateFeeder m => Oracle.DelegateFeeder.layout.write (m.carried e)
  | oracleAggregatePrevote m => Oracle.AggregatePrevote.layout.write (m.carried e)
  | oracleAggregateVote m => Oracle.AggregateVote.layout.write (m.carried e)
  | slashingUnjail m => Slashing.Unjail.layout.write (m.carried e)
  | stakingUndelegate m | stakingDelegate m => Staking.Delegate.layout.write (m.carried e)
  | stakingEditValidator m => Staking.EditValidator.layout.write (m.carried e)
  | stakingCreateValidator m => Staking.CreateValidator.layout.write (m.carried e)
  | stakingRedelegate m => Staking.Redelegate.layout.write (m.carried e)
  | wasmExecute m => Wasm.Execute.layout.write (m.carried e)
  | wasmStoreCode m => Wasm.StoreCode.layout.write (m.carried e)
  | wasmUpdateOwner m => Wasm.UpdateOwner.layout.write (m.carried e)
  | wasmMigrate m => Wasm.Migrate.layout.write (m.carried e)

end Plain

/-- A message that others may wrap: a plain one that has a name and a type URL, or one that wraps such
messages itself. -/
inductive Portable where
  | plain (p : Plain) (w : p.kind.Wrapping)
  | execute (grantee : Bytes) (messages : List Portable)

namespace Portable

def kind : Portable → MessageKind
  | plain p _ => p.kind
  | execute .. => .msgauthExecDelegated

def executeWrapping : MessageKind.msgauthExecDelegated.Wrapping where
  name := "msgauth/MsgExecAuthorized"
  url := "/cosmos.authz.v1beta1.MsgExec"

def wrapping : (m : Portable) → m.kind.Wrapping
  | plain _ w => w
  | execute .. => executeWrapping

mutual

/-- The message as bytes. -/
def payload (e : Encoding) : Portable → Bytes
  | plain p _ => p.payload e
  | execute grantee messages =>
    Authorization.Execute.layout.write
      { grantee := e.address .account grantee, messages := wrapped e messages }

/-- Messages, each wrapped. -/
def wrapped (e : Encoding) : List Portable → List Bytes
  | [] => []
  | m :: ms => m.wrapping.wrap (m.payload e) e :: wrapped e ms

end

end Portable

/-! ## Plain messages -/

/-- **A plain message** is mapped uniformly, whatever may be wrapped. -/
theorem Plain.uniform (p : Plain) (inner? : Context → Option (RawMessage → Mapped Event)) :
    Uniform (fun c payload => p.kind.map (inner? c) c payload) p.payload := by
  cases p with
  | bankSend m => exact Bank.send_uniform m
  | bankMultiSend m => exact Bank.multiSend_uniform m
  | crisisVerifyInvariant m => exact Crisis.verifyInvariant_uniform m
  | distributionWithdrawCommission m => exact Distribution.withdrawCommission_uniform m
  | distributionSetWithdrawAddress m => exact Distribution.setWithdrawAddress_uniform m
  | distributionWithdrawReward m => exact Distribution.withdrawReward_uniform m
  | distributionFundCommunityPool m => exact Distribution.fundCommunityPool_uniform m
  | govDeposit m => exact Gov.deposit_uniform m
  | govVote m => exact Gov.vote_uniform m
  | marketSwap m => exact Market.swap_uniform m
  | marketSwapSend m => exact Market.swapSend_uniform m
  | authorizationRevoke m => exact Authorization.revoke_uniform m
  | oracleRateVote m => exact Oracle.rateVote_uniform m
  | oracleRatePrevote m => exact Oracle.ratePrevote_uniform m
  | oracleDelegateFeeder m => exact Oracle.delegateFeeder_uniform m
  | oracleAggregatePrevote m => exact Oracle.aggregatePrevote_uniform m
  | oracleAggregateVote m => exact Oracle.aggregateVote_uniform m
  | slashingUnjail m => exact Slashing.unjail_uniform m
  | stakingUndelegate m => exact Staking.undelegate_uniform m
  | stakingEditValidator m => exact Staking.editValidator_uniform m
  | stakingCreateValidator m => exact Staking.createValidator_uniform m
  | stakingDelegate m => exact Staking.delegate_uniform m
  | stakingRedelegate m => exact Staking.redelegate_uniform m
  | wasmExecute m => exact Wasm.execute_uniform m
  | wasmStoreCode m => exact Wasm.storeCode_uniform m
  | wasmUpdateOwner m => exact Wasm.updateOwner_uniform m
  | wasmMigrate m => exact Wasm.migrate_uniform m

namespace Registry

/-- How wrapped messages are mapped with so many levels left. -/
def inner? (r : Registry) (c : Context) : Nat → Option (RawMessage → Mapped Event)
  | 0 => none
  | room + 1 => some fun raw => r.mapAt c room (resolve raw)

theorem mapAt_known (r : Registry) (c : Context) (room : Nat) (kind : MessageKind) (payload : Bytes) :
    r.mapAt c room (.known kind payload) =
      if r.contains kind then kind.map (r.inner? c room) c payload
      else .error (.unknown kind.type) := by
  cases room <;> rfl

/-- Wrapped messages, one in each encoding, are unpacked and mapped to the same event, or fail with the
same error. -/
def Alike (r : Registry) (room : Nat) (log : LogEntry) (raw raw' : Bytes) : Prop :=
  ((⟨.amino, log⟩ : Context).unpack raw >>= fun m => r.mapAt ⟨.amino, log⟩ room (resolve m)) =
    ((⟨.proto, log⟩ : Context).unpack raw' >>= fun m => r.mapAt ⟨.proto, log⟩ room (resolve m))

/-- A kind that is not registered fails alike. -/
theorem uniform (r : Registry) {kind : MessageKind} {payload : Encoding → Bytes} {room : Nat}
    (h : Uniform (fun c payload => kind.map (r.inner? c room) c payload) payload) :
    Uniform (fun c payload => r.mapAt c room (.known kind payload)) payload := by
  intro log hsize
  simp only [mapAt_known]
  by_cases hknown : r.contains kind
  · rw [if_pos hknown, if_pos hknown]
    exact h log hsize
  · rw [if_neg hknown, if_neg hknown]

end Registry

/-! ## Wrapped messages -/

namespace Message.Authorization

/-- Wrapped messages with the same outcomes, one by one, have the same outcome together. -/
theorem innerEvents_congr {c c' : Context} {map map' : RawMessage → Mapped Event}
    {raws raws' : List Bytes}
    (h : List.Forall₂ (fun raw raw' => (c.unpack raw >>= map) = (c'.unpack raw' >>= map')) raws raws') :
    ∀ index, innerEvents c map index raws = innerEvents c' map' index raws' := by
  induction h with
  | nil => exact fun _ => rfl
  | cons hraw _ ih =>
    intro index
    rw [innerEvents, innerEvents, hraw, ih (index + 1)]

theorem Execute.length_lt {m : Execute} (h : (Execute.layout.write m).length < UInt64.size) :
    ∀ raw ∈ m.messages, raw.length < UInt64.size := by
  intro raw hraw
  have hwrite : Execute.layout.write m = _ ++ ((m.messages.flatMap fun raw =>
      Wire.Key.write ⟨2, .lengthDelimited⟩ ++ Wire.Scalar.blob.write raw) ++ []) := rfl
  rw [hwrite, List.append_nil, List.length_append] at h
  have hlt := Wire.Field.length_lt_of_mem (k := ⟨2, .lengthDelimited⟩) Wire.Scalar.blob.write
    hraw (by omega)
  have hle : raw.length ≤ (Wire.Varint.write raw.length ++ raw).length := by
    rw [List.length_append]
    omega
  exact Nat.lt_of_le_of_lt hle hlt

/-- **What wraps other messages** is mapped uniformly if they are. -/
theorem execute_uniform (r : Registry) (room : Nat) (grantee : Bytes) (raws : Encoding → List Bytes)
    (h : ∀ room log, (∀ e, ∀ raw ∈ raws e, raw.length < UInt64.size) →
      List.Forall₂ (r.Alike room log) (raws .amino) (raws .proto)) :
    Uniform (fun c payload => execute (r.inner? c room) c payload) fun e =>
      Execute.layout.write { grantee := e.address .account grantee, messages := raws e } :=
  .of_read Execute.faithful rfl fun log hsize => by
    cases room with
    | zero => rfl
    | succ room =>
      have hinner := innerEvents_congr (h room log fun e => Execute.length_lt (hsize e)) 0
      simp only [Registry.inner?, Context.account_carried, hinner]

end Message.Authorization

namespace Portable

variable (r : Registry)

mutual

theorem uniform : ∀ (m : Portable) (room : Nat),
    Uniform (fun c payload => r.mapAt c room (.known m.kind payload)) fun e => m.payload e
  | plain p _, room => r.uniform (p.uniform fun c => r.inner? c room)
  | execute grantee messages, room =>
    r.uniform (Authorization.execute_uniform r room grantee _ (wrapped_uniform messages))

theorem wrapped_uniform : ∀ (ms : List Portable) (room : Nat) (log : LogEntry),
    (∀ e, ∀ raw ∈ wrapped e ms, raw.length < UInt64.size) →
    List.Forall₂ (r.Alike room log) (wrapped .amino ms) (wrapped .proto ms)
  | [], _, _, _ => .nil
  | m :: ms, room, log, hsize => by
    have hwrap : ∀ e, (m.wrapping.wrap (m.payload e) e).length < UInt64.size :=
      fun e => hsize e _ List.mem_cons_self
    have hpayload : ∀ e, (m.payload e).length < UInt64.size :=
      fun e => Nat.lt_of_le_of_lt (m.wrapping.length_le_wrap _ e) (hwrap e)
    obtain ⟨raw, hraw, hkind⟩ := m.wrapping.unpack_wrap (m.payload .amino) log (hwrap .amino)
    obtain ⟨raw', hraw', hkind'⟩ := m.wrapping.unpack_wrap (m.payload .proto) log (hwrap .proto)
    refine .cons ?_ (wrapped_uniform ms room log fun e raw h => hsize e raw (List.mem_cons_of_mem _ h))
    rw [Registry.Alike, hraw, hraw']
    show r.mapAt _ room (resolve raw) = r.mapAt _ room (resolve raw')
    rw [hkind, hkind']
    exact uniform m room log hpayload

end

end Portable

/-- **The event of a message does not depend on its encoding.** With any registry, any log and any number
of levels left, both encodings of a plain message, and of one that wraps others to any depth, are mapped
to the same event, or fail with the same error. -/
theorem encoding_independent (r : Registry) (room : Nat) (log : LogEntry) :
    (∀ p : Plain, (∀ e, (p.payload e).length < UInt64.size) →
      r.mapAt ⟨.amino, log⟩ room (.known p.kind (p.payload .amino)) =
        r.mapAt ⟨.proto, log⟩ room (.known p.kind (p.payload .proto))) ∧
    ∀ m : Portable, (∀ e, (m.payload e).length < UInt64.size) →
      r.mapAt ⟨.amino, log⟩ room (.known m.kind (m.payload .amino)) =
        r.mapAt ⟨.proto, log⟩ room (.known m.kind (m.payload .proto)) := by
  refine ⟨fun p hsize => ?_, fun m hsize => m.uniform r room log hsize⟩
  exact r.uniform (p.uniform fun c => r.inner? c room) log hsize

/-- A send, alone and twice in the name of another. -/
theorem encoding_independent_send :
    let send : Plain := .bankSend
      { sender := [1, 2, 3], recipient := [255], amount := [⟨"uluna", "150"⟩] }
    let both : Portable := .execute [9, 9] <| List.replicate 2 <|
      .plain send { name := "bank/MsgSend", url := "/cosmos.bank.v1beta1.MsgSend" }
    let log : LogEntry := {}
    (∀ e, (send.payload e).length < UInt64.size) ∧ (∀ e, (both.payload e).length < UInt64.size) ∧
      Registry.standard.mapAt ⟨.amino, log⟩ 4 (.known .bankSend (send.payload .amino)) =
        Registry.standard.mapAt ⟨.proto, log⟩ 4 (.known .bankSend (send.payload .proto)) ∧
      Registry.standard.mapAt ⟨.amino, log⟩ 1 (.known .msgauthExecDelegated (both.payload .amino)) =
        Registry.standard.mapAt ⟨.proto, log⟩ 1
          (.known .msgauthExecDelegated (both.payload .proto)) ∧
      (Registry.standard.mapAt ⟨.proto, log⟩ 1
        (.known .msgauthExecDelegated (both.payload .proto))).isOk := by
  intro send both log
  have hsend : ∀ e, (send.payload e).length < UInt64.size := by
    intro e
    cases e <;> decide +kernel
  have hboth : ∀ e, (both.payload e).length < UInt64.size := by
    intro e
    cases e <;> decide +kernel
  exact ⟨hsend, hboth, (encoding_independent .standard 4 log).1 send hsend,
    (encoding_independent .standard 1 log).2 both hboth, by decide +kernel⟩

end ChainIndex
