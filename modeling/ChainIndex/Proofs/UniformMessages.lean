import ChainIndex.Proofs.CarriedFields

/-!
# Messages that both encodings share

The layout of these messages is the same in both encodings, and their addresses and digests are what an
encoding carries of them (`carried`). So whatever is mapped of a message depends on the encoding nowhere:
not in the event, not in the error, whatever the log says.
-/

namespace ChainIndex.Message

open Wire (Bytes Layout nestingLimit)

variable {α : Type}

/-- Both encodings of a message are mapped to the same event, or fail with the same error. -/
def Uniform (map : Context → Bytes → Mapped Event) (payload : Encoding → Bytes) : Prop :=
  ∀ log, (∀ e, (payload e).length < UInt64.size) →
    map ⟨.amino, log⟩ (payload .amino) = map ⟨.proto, log⟩ (payload .proto)

theorem readAs_write {l : Layout α} {depth : Nat} (hl : l.Faithful depth)
    (hdepth : depth ≤ nestingLimit) (name : String) {a : α}
    (hsize : (l.write a).length < UInt64.size) : readAs l name (l.write a) = .ok a := by
  rw [readAs, hl.read_write hdepth hsize]
  rfl

/-- **What is read does not matter**, but what is made of it. -/
theorem Uniform.of_read {l : Layout α} {depth : Nat} (hl : l.Faithful depth)
    {name : String} {carried : Encoding → α} {k : Context → α → Mapped Event}
    (hdepth : decide (depth ≤ nestingLimit) = true)
    (h : ∀ log, (∀ e, (l.write (carried e)).length < UInt64.size) →
      k ⟨.amino, log⟩ (carried .amino) = k ⟨.proto, log⟩ (carried .proto)) :
    Uniform (fun c payload => readAs l name payload >>= k c) fun e => l.write (carried e) := by
  intro log hsize
  simp only [readAs_write hl (of_decide_eq_true hdepth) name (hsize _)]
  exact h log hsize

namespace Bank

def Send.carried (m : Send) (e : Encoding) : Send :=
  { m with sender := e.address .account m.sender, recipient := e.address .account m.recipient }

theorem send_uniform (m : Send) :
    Uniform send fun e => Send.layout.write (m.carried e) :=
  .of_read Send.faithful rfl fun log _ => by
    simp only [Send.carried, Context.account_carried, Context.addTransfers_eq]

/-- A side as an encoding carries it. -/
def Side.carried (e : Encoding) (s : Side) : Side :=
  { s with address := e.address .account s.address }

def MultiSend.carried (m : MultiSend) (e : Encoding) : MultiSend where
  inputs := m.inputs.map (Side.carried e)
  outputs := m.outputs.map (Side.carried e)

/-- The sides are the same movements in every encoding. -/
theorem movements_carried (e : Encoding) (log : LogEntry) (field : String) (sides : List Side) :
    (sides.map (Side.carried e)).mapM (Side.movement ⟨e, log⟩ field) =
      sides.mapM fun s => do
        let amounts ← Message.coins (field ++ ".coins") s.coins
        return { account := { id := Address.encode s.address .account }, amounts } := by
  rw [List.mapM_map]
  refine congrArg (sides.mapM ·) (funext fun s => ?_)
  rw [Function.comp_apply, Side.movement, Side.carried, Context.account_carried]
  rfl

theorem multiSend_uniform (m : MultiSend) :
    Uniform multiSend fun e => MultiSend.layout.write (m.carried e) :=
  .of_read MultiSend.faithful rfl fun log _ => by
    simp only [MultiSend.carried, movements_carried, Context.addTransfers_eq]

end Bank

namespace Crisis

def VerifyInvariant.carried (m : VerifyInvariant) (e : Encoding) : VerifyInvariant :=
  { m with sender := e.address .account m.sender }

theorem verifyInvariant_uniform (m : VerifyInvariant) :
    Uniform verifyInvariant fun e => VerifyInvariant.layout.write (m.carried e) :=
  .of_read VerifyInvariant.faithful rfl fun log _ => by
    simp only [VerifyInvariant.carried, Context.account_carried]

end Crisis

namespace Distribution

def WithdrawCommission.carried (m : WithdrawCommission) (e : Encoding) : WithdrawCommission :=
  { m with validator := e.address .validatorOperator m.validator }

theorem withdrawCommission_uniform (m : WithdrawCommission) :
    Uniform withdrawCommission fun e => WithdrawCommission.layout.write (m.carried e) :=
  .of_read WithdrawCommission.faithful rfl fun log _ => by
    simp only [WithdrawCommission.carried, Context.validator_carried, Context.addTransfers_eq]

def SetWithdrawAddress.carried (m : SetWithdrawAddress) (e : Encoding) : SetWithdrawAddress :=
  { m with delegator := e.address .account m.delegator, withdraw := e.address .account m.withdraw }

theorem setWithdrawAddress_uniform (m : SetWithdrawAddress) :
    Uniform setWithdrawAddress fun e => SetWithdrawAddress.layout.write (m.carried e) :=
  .of_read SetWithdrawAddress.faithful rfl fun log _ => by
    simp only [SetWithdrawAddress.carried, Context.account_carried]

def WithdrawReward.carried (m : WithdrawReward) (e : Encoding) : WithdrawReward :=
  { m with
    delegator := e.address .account m.delegator
    validator := e.address .validatorOperator m.validator }

theorem withdrawReward_uniform (m : WithdrawReward) :
    Uniform withdrawReward fun e => WithdrawReward.layout.write (m.carried e) :=
  .of_read WithdrawReward.faithful rfl fun log _ => by
    simp only [WithdrawReward.carried, Context.account_carried, Context.validator_carried,
      Context.addTransfers_eq]

def FundCommunityPool.carried (m : FundCommunityPool) (e : Encoding) : FundCommunityPool :=
  { m with depositor := e.address .account m.depositor }

theorem fundCommunityPool_uniform (m : FundCommunityPool) :
    Uniform fundCommunityPool fun e => FundCommunityPool.layout.write (m.carried e) :=
  .of_read FundCommunityPool.faithful rfl fun log _ => by
    simp only [FundCommunityPool.carried, Context.account_carried]

end Distribution

namespace Gov

def Deposit.carried (m : Deposit) (e : Encoding) : Deposit :=
  { m with depositor := e.address .account m.depositor }

theorem deposit_uniform (m : Deposit) :
    Uniform deposit fun e => Deposit.layout.write (m.carried e) :=
  .of_read Deposit.faithful rfl fun log _ => by
    simp only [Deposit.carried, Context.account_carried, Context.addTransfers_eq]

def Vote.carried (m : Vote) (e : Encoding) : Vote :=
  { m with voter := e.address .account m.voter }

theorem vote_uniform (m : Vote) :
    Uniform vote fun e => Vote.layout.write (m.carried e) :=
  .of_read Vote.faithful rfl fun log _ => by
    simp only [Vote.carried, Context.account_carried]

end Gov

namespace Market

def Swap.carried (m : Swap) (e : Encoding) : Swap :=
  { m with trader := e.address .account m.trader }

theorem swap_uniform (m : Swap) :
    Uniform swap fun e => Swap.layout.write (m.carried e) :=
  .of_read Swap.faithful rfl fun log _ => by
    simp only [Swap.carried, Context.account_carried, Context.addTransfers_eq]

def SwapSend.carried (m : SwapSend) (e : Encoding) : SwapSend :=
  { m with sender := e.address .account m.sender, recipient := e.address .account m.recipient }

theorem swapSend_uniform (m : SwapSend) :
    Uniform swapSend fun e => SwapSend.layout.write (m.carried e) :=
  .of_read SwapSend.faithful rfl fun log _ => by
    simp only [SwapSend.carried, Context.account_carried, Context.addTransfers_eq]

end Market

namespace Authorization

def Revoke.carried (m : Revoke) (e : Encoding) : Revoke :=
  { m with granter := e.address .account m.granter, grantee := e.address .account m.grantee }

theorem revoke_uniform (m : Revoke) :
    Uniform revoke fun e => Revoke.layout.write (m.carried e) :=
  .of_read Revoke.faithful rfl fun log _ => by
    simp only [Revoke.carried, Context.account_carried]

end Authorization

namespace Oracle

def RateVote.carried (m : RateVote) (e : Encoding) : RateVote :=
  { m with
    feeder := e.address .account m.feeder
    validator := e.address .validatorOperator m.validator }

theorem rateVote_uniform (m : RateVote) :
    Uniform rateVote fun e => RateVote.layout.write (m.carried e) :=
  .of_read RateVote.faithful rfl fun log _ => by
    simp only [RateVote.carried, voted, Context.account_carried, Context.validator_carried]

def RatePrevote.carried (m : RatePrevote) (e : Encoding) : RatePrevote :=
  { m with
    digest := e.digest m.digest
    feeder := e.address .account m.feeder
    validator := e.address .validatorOperator m.validator }

theorem ratePrevote_uniform (m : RatePrevote) :
    Uniform ratePrevote fun e => RatePrevote.layout.write (m.carried e) :=
  .of_read RatePrevote.faithful rfl fun log _ => by
    simp only [RatePrevote.carried, voted, Context.account_carried, Context.validator_carried,
      Context.hexText_carried]

def DelegateFeeder.carried (m : DelegateFeeder) (e : Encoding) : DelegateFeeder :=
  { m with
    operator := e.address .validatorOperator m.operator
    delegate := e.address .account m.delegate }

theorem delegateFeeder_uniform (m : DelegateFeeder) :
    Uniform delegateFeeder fun e => DelegateFeeder.layout.write (m.carried e) :=
  .of_read DelegateFeeder.faithful rfl fun log _ => by
    simp only [DelegateFeeder.carried, Context.account_carried, Context.validator_carried]

def AggregatePrevote.carried (m : AggregatePrevote) (e : Encoding) : AggregatePrevote :=
  { m with
    digest := e.digest m.digest
    feeder := e.address .account m.feeder
    validator := e.address .validatorOperator m.validator }

theorem aggregatePrevote_uniform (m : AggregatePrevote) :
    Uniform aggregatePrevote fun e => AggregatePrevote.layout.write (m.carried e) :=
  .of_read AggregatePrevote.faithful rfl fun log _ => by
    simp only [AggregatePrevote.carried, voted, Context.account_carried, Context.validator_carried,
      Context.hexText_carried]

def AggregateVote.carried (m : AggregateVote) (e : Encoding) : AggregateVote :=
  { m with
    feeder := e.address .account m.feeder
    validator := e.address .validatorOperator m.validator }

theorem aggregateVote_uniform (m : AggregateVote) :
    Uniform aggregateVote fun e => AggregateVote.layout.write (m.carried e) :=
  .of_read AggregateVote.faithful rfl fun log _ => by
    simp only [AggregateVote.carried, voted, Context.account_carried, Context.validator_carried]

end Oracle

namespace Slashing

def Unjail.carried (m : Unjail) (e : Encoding) : Unjail :=
  { m with validator := e.address .validatorOperator m.validator }

theorem unjail_uniform (m : Unjail) :
    Uniform unjail fun e => Unjail.layout.write (m.carried e) :=
  .of_read Unjail.faithful rfl fun log _ => by
    simp only [Unjail.carried, Context.validator_carried]

end Slashing

namespace Staking

def CreateValidator.carried (m : CreateValidator) (e : Encoding) : CreateValidator :=
  { m with
    delegator := e.address .account m.delegator
    validator := e.address .validatorOperator m.validator }

theorem createValidator_uniform (m : CreateValidator) :
    Uniform createValidator fun e => CreateValidator.layout.write (m.carried e) :=
  .of_read CreateValidator.faithful rfl fun log _ => by
    simp only [CreateValidator.carried, Context.account_carried, Context.validator_carried]

def EditValidator.carried (m : EditValidator) (e : Encoding) : EditValidator :=
  { m with validator := e.address .validatorOperator m.validator }

theorem editValidator_uniform (m : EditValidator) :
    Uniform editValidator fun e => EditValidator.layout.write (m.carried e) :=
  .of_read EditValidator.faithful rfl fun log _ => by
    simp only [EditValidator.carried, Context.validator_carried]
    rfl

def Delegate.carried (m : Delegate) (e : Encoding) : Delegate :=
  { m with
    delegator := e.address .account m.delegator
    validator := e.address .validatorOperator m.validator }

theorem delegate_uniform (m : Delegate) :
    Uniform delegate fun e => Delegate.layout.write (m.carried e) :=
  .of_read Delegate.faithful rfl fun log _ => by
    simp only [Delegate.carried, Context.account_carried, Context.validator_carried,
      Context.addTransfers_eq]

theorem undelegate_uniform (m : Delegate) :
    Uniform undelegate fun e => Delegate.layout.write (m.carried e) :=
  .of_read Delegate.faithful rfl fun log _ => by
    simp only [Delegate.carried, Context.account_carried, Context.validator_carried,
      Context.addTransfers_eq]

def Redelegate.carried (m : Redelegate) (e : Encoding) : Redelegate :=
  { m with
    delegator := e.address .account m.delegator
    source := e.address .validatorOperator m.source
    destination := e.address .validatorOperator m.destination }

theorem redelegate_uniform (m : Redelegate) :
    Uniform redelegate fun e => Redelegate.layout.write (m.carried e) :=
  .of_read Redelegate.faithful rfl fun log _ => by
    simp only [Redelegate.carried, Context.account_carried, Context.validator_carried,
      Context.addTransfers_eq]

end Staking

namespace Wasm

def Execute.carried (m : Execute) (e : Encoding) : Execute :=
  { m with sender := e.address .account m.sender, contract := e.address .account m.contract }

theorem execute_uniform (m : Execute) :
    Uniform execute fun e => Execute.layout.write (m.carried e) :=
  .of_read Execute.faithful rfl fun log _ => by
    simp only [Execute.carried, Context.account_carried]

def StoreCode.carried (m : StoreCode) (e : Encoding) : StoreCode :=
  { m with sender := e.address .account m.sender }

theorem storeCode_uniform (m : StoreCode) :
    Uniform storeCode fun e => StoreCode.layout.write (m.carried e) :=
  .of_read StoreCode.faithful rfl fun log _ => by
    simp only [StoreCode.carried, Context.account_carried]

def UpdateOwner.carried (m : UpdateOwner) (e : Encoding) : UpdateOwner :=
  { m with
    owner := e.address .account m.owner
    newOwner := e.address .account m.newOwner
    contract := e.address .account m.contract }

theorem updateOwner_uniform (m : UpdateOwner) :
    Uniform updateOwner fun e => UpdateOwner.layout.write (m.carried e) :=
  .of_read UpdateOwner.faithful rfl fun log _ => by
    simp only [UpdateOwner.carried, Context.account_carried]

def Migrate.carried (m : Migrate) (e : Encoding) : Migrate :=
  { m with owner := e.address .account m.owner, contract := e.address .account m.contract }

theorem migrate_uniform (m : Migrate) :
    Uniform migrate fun e => Migrate.layout.write (m.carried e) :=
  .of_read Migrate.faithful rfl fun log _ => by
    simp only [Migrate.carried, Context.account_carried]

end Wasm

end ChainIndex.Message
