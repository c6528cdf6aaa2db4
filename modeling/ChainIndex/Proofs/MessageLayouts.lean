import ChainIndex.Message.Authorization
import ChainIndex.Message.Bank
import ChainIndex.Message.Crisis
import ChainIndex.Message.Distribution
import ChainIndex.Message.Gov
import ChainIndex.Message.Market
import ChainIndex.Message.Oracle
import ChainIndex.Message.Slashing
import ChainIndex.Message.Staking
import ChainIndex.Message.Wasm
import ChainIndex.Proofs.ProtobufEnvelope

/-!
# The layouts of messages are faithful

The messages that look the same in both encodings, one after the other: what is written of them is read
back. A message with coins, or with a part of its own, needs room for one nested message, one with a list
of parts that hold coins for two.
-/

namespace ChainIndex.Message

open Wire (Field Layout Scalar Completes)

namespace Bank

theorem Send.faithful : Send.layout.Faithful 1 :=
  .of_completes rfl fun _ =>
    .cons (Field.copies_single Scalar.blob_lawful (.of_eq fun _ _ => rfl)) <|
    .cons (Field.copies_single Scalar.blob_lawful (.of_eq fun _ _ => rfl)) <|
    .cons (Field.copies_messages Coin.faithful (.of_eq fun _ _ => rfl)) .nil

theorem Side.faithful : Side.layout.Faithful 1 :=
  .of_completes rfl fun _ =>
    .cons (Field.copies_single Scalar.blob_lawful (.of_eq fun _ _ => rfl)) <|
    .cons (Field.copies_messages Coin.faithful (.of_eq fun _ _ => rfl)) .nil

theorem MultiSend.faithful : MultiSend.layout.Faithful 2 :=
  .of_completes rfl fun _ =>
    .cons (Field.copies_messages Side.faithful (.of_eq fun _ _ => rfl)) <|
    .cons (Field.copies_messages Side.faithful (.of_eq fun _ _ => rfl)) .nil

end Bank

namespace Crisis

theorem VerifyInvariant.faithful : VerifyInvariant.layout.Faithful 0 :=
  .of_completes rfl fun _ =>
    .cons (Field.copies_single Scalar.blob_lawful (.of_eq fun _ _ => rfl)) <|
    .cons (Field.copies_single Scalar.text_lawful (.of_eq fun _ _ => rfl)) <|
    .cons (Field.copies_single Scalar.text_lawful (.of_eq fun _ _ => rfl)) .nil

end Crisis

namespace Distribution

theorem WithdrawCommission.faithful : WithdrawCommission.layout.Faithful 0 :=
  .of_completes rfl fun _ =>
    .cons (Field.copies_single Scalar.blob_lawful (.of_eq fun _ _ => rfl)) .nil

theorem SetWithdrawAddress.faithful : SetWithdrawAddress.layout.Faithful 0 :=
  .of_completes rfl fun _ =>
    .cons (Field.copies_single Scalar.blob_lawful (.of_eq fun _ _ => rfl)) <|
    .cons (Field.copies_single Scalar.blob_lawful (.of_eq fun _ _ => rfl)) .nil

theorem WithdrawReward.faithful : WithdrawReward.layout.Faithful 0 :=
  .of_completes rfl fun _ =>
    .cons (Field.copies_single Scalar.blob_lawful (.of_eq fun _ _ => rfl)) <|
    .cons (Field.copies_single Scalar.blob_lawful (.of_eq fun _ _ => rfl)) .nil

theorem FundCommunityPool.faithful : FundCommunityPool.layout.Faithful 1 :=
  .of_completes rfl fun _ =>
    .cons (Field.copies_messages Coin.faithful (.of_eq fun _ _ => rfl)) <|
    .cons (Field.copies_single Scalar.blob_lawful (.of_eq fun _ _ => rfl)) .nil

end Distribution

namespace Gov

theorem Deposit.faithful : Deposit.layout.Faithful 1 :=
  .of_completes rfl fun _ =>
    .cons (Field.copies_single Scalar.word64_lawful (.of_eq fun _ _ => rfl)) <|
    .cons (Field.copies_single Scalar.blob_lawful (.of_eq fun _ _ => rfl)) <|
    .cons (Field.copies_messages Coin.faithful (.of_eq fun _ _ => rfl)) .nil

theorem Vote.faithful : Vote.layout.Faithful 0 :=
  .of_completes rfl fun _ =>
    .cons (Field.copies_single Scalar.word64_lawful (.of_eq fun _ _ => rfl)) <|
    .cons (Field.copies_single Scalar.blob_lawful (.of_eq fun _ _ => rfl)) <|
    .cons (Field.copies_single Scalar.int32_lawful (.of_eq fun _ _ => rfl)) .nil

end Gov

namespace Market

theorem Swap.faithful : Swap.layout.Faithful 1 :=
  .of_completes rfl fun _ =>
    .cons (Field.copies_single Scalar.blob_lawful (.of_eq fun _ _ => rfl)) <|
    .cons (Field.copies_message Coin.faithful (.of_eq fun _ _ => rfl)) <|
    .cons (Field.copies_single Scalar.text_lawful (.of_eq fun _ _ => rfl)) .nil

theorem SwapSend.faithful : SwapSend.layout.Faithful 1 :=
  .of_completes rfl fun _ =>
    .cons (Field.copies_single Scalar.blob_lawful (.of_eq fun _ _ => rfl)) <|
    .cons (Field.copies_single Scalar.blob_lawful (.of_eq fun _ _ => rfl)) <|
    .cons (Field.copies_message Coin.faithful (.of_eq fun _ _ => rfl)) <|
    .cons (Field.copies_single Scalar.text_lawful (.of_eq fun _ _ => rfl)) .nil

end Market

namespace Authorization

theorem Revoke.faithful : Revoke.layout.Faithful 0 :=
  .of_completes rfl fun _ =>
    .cons (Field.copies_single Scalar.blob_lawful (.of_eq fun _ _ => rfl)) <|
    .cons (Field.copies_single Scalar.blob_lawful (.of_eq fun _ _ => rfl)) <|
    .cons (Field.copies_single Scalar.text_lawful (.of_eq fun _ _ => rfl)) .nil

theorem Execute.faithful : Execute.layout.Faithful 0 :=
  .of_completes rfl fun _ =>
    .cons (Field.copies_single Scalar.blob_lawful (.of_eq fun _ _ => rfl)) <|
    .cons (Field.copies_repeated Scalar.blob_lawful (.of_eq fun _ _ => rfl)) .nil

end Authorization

namespace Oracle

theorem RateVote.faithful : RateVote.layout.Faithful 0 :=
  .of_completes rfl fun _ =>
    .cons (Field.copies_single Scalar.text_lawful (.of_eq fun _ _ => rfl)) <|
    .cons (Field.copies_single Scalar.text_lawful (.of_eq fun _ _ => rfl)) <|
    .cons (Field.copies_single Scalar.text_lawful (.of_eq fun _ _ => rfl)) <|
    .cons (Field.copies_single Scalar.blob_lawful (.of_eq fun _ _ => rfl)) <|
    .cons (Field.copies_single Scalar.blob_lawful (.of_eq fun _ _ => rfl)) .nil

theorem RatePrevote.faithful : RatePrevote.layout.Faithful 0 :=
  .of_completes rfl fun _ =>
    .cons (Field.copies_single Scalar.blob_lawful (.of_eq fun _ _ => rfl)) <|
    .cons (Field.copies_single Scalar.text_lawful (.of_eq fun _ _ => rfl)) <|
    .cons (Field.copies_single Scalar.blob_lawful (.of_eq fun _ _ => rfl)) <|
    .cons (Field.copies_single Scalar.blob_lawful (.of_eq fun _ _ => rfl)) .nil

theorem DelegateFeeder.faithful : DelegateFeeder.layout.Faithful 0 :=
  .of_completes rfl fun _ =>
    .cons (Field.copies_single Scalar.blob_lawful (.of_eq fun _ _ => rfl)) <|
    .cons (Field.copies_single Scalar.blob_lawful (.of_eq fun _ _ => rfl)) .nil

theorem AggregatePrevote.faithful : AggregatePrevote.layout.Faithful 0 :=
  .of_completes rfl fun _ =>
    .cons (Field.copies_single Scalar.blob_lawful (.of_eq fun _ _ => rfl)) <|
    .cons (Field.copies_single Scalar.blob_lawful (.of_eq fun _ _ => rfl)) <|
    .cons (Field.copies_single Scalar.blob_lawful (.of_eq fun _ _ => rfl)) .nil

theorem AggregateVote.faithful : AggregateVote.layout.Faithful 0 :=
  .of_completes rfl fun _ =>
    .cons (Field.copies_single Scalar.text_lawful (.of_eq fun _ _ => rfl)) <|
    .cons (Field.copies_single Scalar.text_lawful (.of_eq fun _ _ => rfl)) <|
    .cons (Field.copies_single Scalar.blob_lawful (.of_eq fun _ _ => rfl)) <|
    .cons (Field.copies_single Scalar.blob_lawful (.of_eq fun _ _ => rfl)) .nil

end Oracle

namespace Slashing

theorem Unjail.faithful : Unjail.layout.Faithful 0 :=
  .of_completes rfl fun _ =>
    .cons (Field.copies_single Scalar.blob_lawful (.of_eq fun _ _ => rfl)) .nil

end Slashing

namespace Staking

theorem description_faithful : descriptionLayout.Faithful 0 :=
  .of_completes rfl fun _ =>
    .cons (Field.copies_single Scalar.text_lawful (.of_eq fun _ _ => rfl)) <|
    .cons (Field.copies_single Scalar.text_lawful (.of_eq fun _ _ => rfl)) <|
    .cons (Field.copies_single Scalar.text_lawful (.of_eq fun _ _ => rfl)) <|
    .cons (Field.copies_single Scalar.text_lawful (.of_eq fun _ _ => rfl)) <|
    .cons (Field.copies_single Scalar.text_lawful (.of_eq fun _ _ => rfl)) .nil

theorem Commission.faithful : Commission.layout.Faithful 0 :=
  .of_completes rfl fun _ =>
    .cons (Field.copies_single Scalar.text_lawful (.of_eq fun _ _ => rfl)) <|
    .cons (Field.copies_single Scalar.text_lawful (.of_eq fun _ _ => rfl)) <|
    .cons (Field.copies_single Scalar.text_lawful (.of_eq fun _ _ => rfl)) .nil

theorem CreateValidator.faithful : CreateValidator.layout.Faithful 1 :=
  .of_completes rfl fun _ =>
    .cons (Field.copies_message description_faithful (.of_eq fun _ _ => rfl)) <|
    .cons (Field.copies_message Commission.faithful (.of_eq fun _ _ => rfl)) <|
    .cons (Field.copies_single Scalar.text_lawful (.of_eq fun _ _ => rfl)) <|
    .cons (Field.copies_single Scalar.blob_lawful (.of_eq fun _ _ => rfl)) <|
    .cons (Field.copies_single Scalar.blob_lawful (.of_eq fun _ _ => rfl)) <|
    .cons (Field.copies_message Coin.faithful (.of_eq fun _ _ => rfl)) .nil

theorem EditValidator.faithful : EditValidator.layout.Faithful 1 :=
  .of_completes rfl fun _ =>
    .cons (Field.copies_message description_faithful (.of_eq fun _ _ => rfl)) <|
    .cons (Field.copies_single Scalar.blob_lawful (.of_eq fun _ _ => rfl)) <|
    .cons (Field.copies_single Scalar.text_lawful (.of_eq fun _ _ => rfl)) <|
    .cons (Field.copies_single Scalar.text_lawful (.of_eq fun _ _ => rfl)) .nil

theorem Delegate.faithful : Delegate.layout.Faithful 1 :=
  .of_completes rfl fun _ =>
    .cons (Field.copies_single Scalar.blob_lawful (.of_eq fun _ _ => rfl)) <|
    .cons (Field.copies_single Scalar.blob_lawful (.of_eq fun _ _ => rfl)) <|
    .cons (Field.copies_message Coin.faithful (.of_eq fun _ _ => rfl)) .nil

theorem Redelegate.faithful : Redelegate.layout.Faithful 1 :=
  .of_completes rfl fun _ =>
    .cons (Field.copies_single Scalar.blob_lawful (.of_eq fun _ _ => rfl)) <|
    .cons (Field.copies_single Scalar.blob_lawful (.of_eq fun _ _ => rfl)) <|
    .cons (Field.copies_single Scalar.blob_lawful (.of_eq fun _ _ => rfl)) <|
    .cons (Field.copies_message Coin.faithful (.of_eq fun _ _ => rfl)) .nil

end Staking

namespace Wasm

theorem Execute.faithful : Execute.layout.Faithful 1 :=
  .of_completes rfl fun _ =>
    .cons (Field.copies_single Scalar.blob_lawful (.of_eq fun _ _ => rfl)) <|
    .cons (Field.copies_single Scalar.blob_lawful (.of_eq fun _ _ => rfl)) <|
    .cons (Field.copies_single Scalar.blob_lawful (.of_eq fun _ _ => rfl)) <|
    .cons (Field.copies_messages Coin.faithful (.of_eq fun _ _ => rfl)) .nil

theorem StoreCode.faithful : StoreCode.layout.Faithful 0 :=
  .of_completes rfl fun _ =>
    .cons (Field.copies_single Scalar.blob_lawful (.of_eq fun _ _ => rfl)) <|
    .cons (Field.copies_single Scalar.blob_lawful (.of_eq fun _ _ => rfl)) .nil

theorem Migrate.faithful : Migrate.layout.Faithful 0 :=
  .of_completes rfl fun _ =>
    .cons (Field.copies_single Scalar.blob_lawful (.of_eq fun _ _ => rfl)) <|
    .cons (Field.copies_single Scalar.blob_lawful (.of_eq fun _ _ => rfl)) <|
    .cons (Field.copies_single Scalar.word64_lawful (.of_eq fun _ _ => rfl)) <|
    .cons (Field.copies_single Scalar.blob_lawful (.of_eq fun _ _ => rfl)) .nil

theorem UpdateOwner.faithful : UpdateOwner.layout.Faithful 0 :=
  .of_completes rfl fun _ =>
    .cons (Field.copies_single Scalar.blob_lawful (.of_eq fun _ _ => rfl)) <|
    .cons (Field.copies_single Scalar.blob_lawful (.of_eq fun _ _ => rfl)) <|
    .cons (Field.copies_single Scalar.blob_lawful (.of_eq fun _ _ => rfl)) .nil

end Wasm

end ChainIndex.Message
