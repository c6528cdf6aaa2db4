import ChainIndex.Message.Gov
import ChainIndex.Message.Wasm
import ChainIndex.Proofs.Payments
import ChainIndex.Proofs.Records
import Mathlib.Data.List.Nodup

/-!
# Numbered coins stand under keys of their own

Where a message carries a list of coins, its event has them in a map under generated keys, and a map
replaces what stands at a key that it has already. So whether all of them are kept depends on the keys
alone: different numbers have to give different keys, and the first key, which has no number, must not
be one of the numbered ones (`numberedKey_injective`). The coins are then the map as they stand.

* `Keyed.ofList_numbered`: values under different keys are all kept, in their order.
* `Numbers.of_ok`: what a mapping is to do for its coins to be kept.
* `coins_under_own_keys`: **deposits, proposals and instantiations keep every coin under its own key, or
  have no event.**
-/

namespace ChainIndex

open Wire (Bytes)

/-! ## Keys -/

/-- `name`, `name_1`, `name_2` and so on. -/
def numberedKey (name : String) (i : Nat) : String :=
  if i = 0 then name else s!"{name}_{i}"

/-- `init_coin_0`, `init_coin_1` and so on. -/
def initCoinKey (i : Nat) : String :=
  s!"init_coin_{i}"

/-- A text with a number after it gives the number away. -/
theorem appended_injective (start : String) :
    Function.Injective fun i : Nat => start ++ toString i := by
  intro i j h
  exact Text.toString_inj ((String.append_right_inj start).1 h)

theorem initCoinKey_injective : Function.Injective initCoinKey :=
  appended_injective "init_coin_"

theorem numberedKey_injective (name : String) : Function.Injective (numberedKey name) := by
  have hlonger : ∀ i : Nat, name ≠ name ++ "_" ++ toString i := by
    intro i h
    have hlength := congrArg String.length h
    rw [String.length_append, String.length_append] at hlength
    have hunderscore : "_".length = 1 := rfl
    omega
  intro i j h
  by_cases hi : i = 0 <;> by_cases hj : j = 0
  · rw [hi, hj]
  · rw [numberedKey, numberedKey, if_pos hi, if_neg hj] at h
    exact absurd h (hlonger j)
  · rw [numberedKey, numberedKey, if_neg hi, if_pos hj] at h
    exact absurd h.symm (hlonger i)
  · rw [numberedKey, numberedKey, if_neg hi, if_neg hj] at h
    exact appended_injective (name ++ "_") h

/-! ## Values under numbered keys -/

namespace Keyed

variable {α : Type} {key : Nat → String}

/-- Each value with the key of its number. -/
def numbered (key : Nat → String) (values : List α) : Keyed α :=
  values.zipIdx.map fun p => (key p.2, p.1)

theorem keys_numbered (values : List α) :
    (numbered key values).keys = (List.range values.length).map key := by
  rw [numbered, keys, List.map_map, List.range_eq_range', ← List.zipIdx_map_snd 0 values,
    List.map_map]
  rfl

theorem nodup_numbered (hkey : Function.Injective key) (values : List α) :
    (numbered key values).keys.Nodup := by
  rw [keys_numbered]
  exact List.Nodup.map hkey List.nodup_range

/-- **Values under different keys are a map as they stand.** -/
theorem ofList_numbered (hkey : Function.Injective key) (values : List α) :
    ofList (numbered key values) = numbered key values :=
  Json.Codec.ofList_eq (nodup_numbered hkey values)

theorem getElem?_numbered {values : List α} {i : Nat} {value : α} (h : values[i]? = some value) :
    (numbered key values)[i]? = some (key i, value) := by
  rw [numbered, List.getElem?_map, List.getElem?_zipIdx, h]
  simp

end Keyed

/-! ## The coins of an event -/

/-- The coin is read as the amount. -/
def Coin.ReadsAs (coin : Coin) (a : Amount) : Prop :=
  Amount.parse coin.amount coin.denom = .ok a

/-- The map has one entry for each coin, in the order of the coins and each under its own key. -/
structure OwnKeys (m : Keyed Amount) (key : Nat → String) (cs : List Coin) : Prop where
  length : m.length = cs.length
  nodup : m.keys.Nodup
  entry : ∀ i coin, cs[i]? = some coin →
    ∃ a, coin.ReadsAs a ∧ m[i]? = some (key i, a) ∧ m.get? (key i) = some a

theorem ownKeys_numbered {key : Nat → String} (hkey : Function.Injective key) {cs : List Coin}
    {amounts : List Amount} (h : List.Forall₂ Coin.ReadsAs cs amounts) :
    OwnKeys (Keyed.numbered key amounts) key cs := by
  have hnodup := Keyed.nodup_numbered hkey amounts
  refine ⟨?_, hnodup, fun i coin hi => ?_⟩
  · rw [Keyed.numbered, List.length_map, List.length_zipIdx, h.length_eq]
  · obtain ⟨hlt, rfl⟩ := List.getElem?_eq_some_iff.1 hi
    have hlt' : i < amounts.length := h.length_eq ▸ hlt
    have hentry : (Keyed.numbered key amounts)[i]? = some (key i, amounts[i]) :=
      Keyed.getElem?_numbered (List.getElem?_eq_getElem hlt')
    have hget : (Keyed.numbered key amounts).get? (key i) = some amounts[i] :=
      (lookup_eq_some_iff hnodup).2 (List.mem_of_getElem? hentry)
    exact ⟨amounts[i], h.get hlt hlt', hentry, hget⟩

namespace Message

theorem coin_eq_ok {field : String} {c : Coin} {a : Amount} :
    coin field c = .ok a ↔ c.ReadsAs a := by
  refine ⟨of_mapError_ok, fun h => ?_⟩
  rw [coin, show Amount.parse c.amount c.denom = .ok a from h]
  rfl

theorem coins_eq_ok {field : String} {cs : List Coin} {amounts : List Amount} :
    coins field cs = .ok amounts ↔ List.Forall₂ Coin.ReadsAs cs amounts := by
  induction cs generalizing amounts with
  | nil => simp [coins, pure, Except.pure, eq_comm]
  | cons c cs ih =>
    simp only [coins] at ih ⊢
    simp only [List.mapM_cons, bind_eq_ok, coin_eq_ok, ih, List.forall₂_cons_left_iff, pure,
      Except.pure, Except.ok.injEq]
    constructor
    · rintro ⟨a, ha, rest, hrest, rfl⟩
      exact ⟨a, rest, ha, hrest, rfl⟩
    · rintro ⟨a, rest, ha, hrest, rfl⟩
      exact ⟨a, ha, rest, hrest, rfl⟩

theorem exists_coins {field : String} {cs : List Coin} :
    (∃ amounts, coins field cs = .ok amounts) ↔ ∀ c ∈ cs, ∃ a, c.ReadsAs a := by
  simp only [coins_eq_ok]
  induction cs with
  | nil => simp
  | cons c cs ih =>
    rw [List.forall_mem_cons, ← ih]
    simp only [List.forall₂_cons_left_iff]
    constructor
    · rintro ⟨_, a, rest, ha, hrest, -⟩
      exact ⟨⟨a, ha⟩, rest, hrest⟩
    · rintro ⟨⟨a, ha⟩, rest, hrest⟩
      exact ⟨a :: rest, a, rest, ha, hrest, rfl⟩

/-- What a mapping does with the coins of its message: there is an event exactly if each of them can be
read and nothing else stands against it, and the event has them under keys of their own. -/
structure Numbers (result : Mapped Event) (key : Nat → String) (cs : List Coin) (others : Prop) :
    Prop where
  mapped : (∃ e, result = .ok e) ↔ (∀ coin ∈ cs, ∃ a, coin.ReadsAs a) ∧ others
  refused : (∃ coin ∈ cs, ∀ a, ¬coin.ReadsAs a) → ∃ error, result = .error error
  own : ∀ e, result = .ok e → OwnKeys e.amounts key cs

theorem Numbers.of_ok {result : Mapped Event} {key : Nat → String} {cs : List Coin} {others : Prop}
    (field : String) (hkey : Function.Injective key)
    (hok : ∀ e, result = .ok e → others ∧ ∃ amounts, coins field cs = .ok amounts ∧
      e.amounts = Keyed.numbered key amounts)
    (hmade : ∀ amounts, coins field cs = .ok amounts → others → ∃ e, result = .ok e) :
    Numbers result key cs others := by
  refine ⟨⟨fun ⟨e, he⟩ => ?_, fun ⟨hcoins, hothers⟩ => ?_⟩, fun ⟨coin, hcoin, hunread⟩ => ?_,
    fun e he => ?_⟩
  · obtain ⟨hothers, amounts, hamounts, -⟩ := hok e he
    exact ⟨exists_coins.1 ⟨amounts, hamounts⟩, hothers⟩
  · obtain ⟨amounts, hamounts⟩ := exists_coins.2 hcoins
    exact hmade amounts hamounts hothers
  · cases hresult : result with
    | error error => exact ⟨error, rfl⟩
    | ok e =>
      obtain ⟨-, amounts, hamounts, -⟩ := hok e hresult
      obtain ⟨a, ha⟩ := exists_coins.1 ⟨amounts, hamounts⟩ coin hcoin
      exact absurd ha (hunread a)
  · obtain ⟨-, amounts, hamounts, heq⟩ := hok e he
    rw [heq]
    exact ownKeys_numbered hkey (coins_eq_ok.1 hamounts)

/-! ## Adding the coins -/

/-- Amounts that are added one after the other are inserted one after the other. -/
theorem amounts_foldl (key : Nat → String) (items : List (Amount × Nat)) (e : Event) :
    (items.foldl (fun e p => e.withAmount (key p.2) p.1) e).amounts =
      (items.map fun p => (key p.2, p.1)).foldl (fun (m : Keyed Amount) p => m.insert p.1 p.2)
        e.amounts := by
  induction items generalizing e with
  | nil => rfl
  | cons item items ih => exact ih _

theorem amounts_added {key : Nat → String} (hkey : Function.Injective key) (amounts : List Amount)
    {e : Event} (h : e.amounts = []) :
    (amounts.zipIdx.foldl (fun e p => e.withAmount (key p.2) p.1) e).amounts =
      Keyed.numbered key amounts := by
  rw [amounts_foldl, h]
  exact Keyed.ofList_numbered hkey amounts

theorem amounts_withNumbered (name : String) (amounts : List Amount) {e : Event}
    (h : e.amounts = []) :
    (withNumbered name amounts e).amounts = Keyed.numbered (numberedKey name) amounts :=
  amounts_added (numberedKey_injective name) amounts h

theorem amounts_withInitCoins (amounts : List Amount) {e : Event} (h : e.amounts = []) :
    (Wasm.withInitCoins amounts e).amounts = Keyed.numbered initCoinKey amounts :=
  amounts_added initCoinKey_injective amounts h

variable {c : Context}

/-- Transfers are added if all amounts of the log can be read, and leave the amounts as they are. -/
theorem exists_addTransfers {kind skipped : String} {e : Event} :
    (∃ t, c.addTransfers kind skipped e = .ok t) ↔ Readable (c.log.paid skipped) := by
  unfold Context.addTransfers Event.withTransfers
  constructor
  · rintro ⟨t, ht⟩
    have hok := of_mapError_ok ht
    by_contra hunreadable
    obtain ⟨before, p, rest, error, hpaid, hbefore, herror⟩ := exists_unreadable hunreadable
    rw [Event.produceTransfers_error e kind skipped c.log hpaid hbefore herror] at hok
    cases hok
  · intro hreadable
    rw [Event.produceTransfers_ok e kind skipped c.log hreadable]
    exact ⟨_, rfl⟩

theorem amounts_of_addTransfers {kind skipped : String} {e t : Event}
    (h : c.addTransfers kind skipped e = .ok t) : t.amounts = e.amounts := by
  obtain ⟨_, rfl⟩ := Event.of_withTransfers_ok (of_mapError_ok h)
  rfl

/-! ## Deposits and proposals -/

namespace Gov

variable {payload : Bytes}

theorem deposit_numbers {m : Deposit} (hm : readAs Deposit.layout "MsgDeposit" payload = .ok m) :
    Numbers (deposit c payload) (numberedKey "deposit") m.amount
      ((∃ a, c.account "depositor" m.depositor = .ok a) ∧ Readable (c.log.paid "")) := by
  refine Numbers.of_ok "amount" (numberedKey_injective _) (fun e he => ?_)
    fun amounts hamounts ⟨⟨depositor, hdepositor⟩, hreadable⟩ => ?_
  · simp only [deposit, hm, bind_eq_ok, Except.ok.injEq, exists_eq_left'] at he
    obtain ⟨depositor, hdepositor, amounts, hamounts, he⟩ := he
    refine ⟨⟨⟨depositor, hdepositor⟩, exists_addTransfers.1 ⟨e, he⟩⟩, amounts, hamounts, ?_⟩
    rw [amounts_of_addTransfers he]
    exact amounts_withNumbered _ _ rfl
  · obtain ⟨e, he⟩ := exists_addTransfers.2 hreadable
    simp only [deposit, hm, bind_eq_ok, Except.ok.injEq, exists_eq_left']
    exact ⟨e, depositor, hdepositor, amounts, hamounts, he⟩

/-- The content is one whose title and description can be read. -/
def HasContent (c : Context) (content : Bytes) : Prop :=
  ∃ raw, c.unpack content = .ok raw ∧
    ∃ fields, readAs Content.layout "ProposalContent" raw.payload = .ok fields

theorem exists_addContent {raw : RawMessage} {e : Event} :
    (∃ t, addContent raw e = .ok t) ↔
      ∃ fields, readAs Content.layout "ProposalContent" raw.payload = .ok fields := by
  unfold addContent
  simp only [bind_eq_ok]
  exact ⟨fun ⟨_, fields, hfields, _⟩ => ⟨fields, hfields⟩,
    fun ⟨fields, hfields⟩ => ⟨_, fields, hfields, rfl⟩⟩

theorem amounts_of_addContent {raw : RawMessage} {e t : Event} (h : addContent raw e = .ok t) :
    t.amounts = e.amounts := by
  obtain ⟨fields, -, h⟩ := of_bind_ok h
  obtain rfl := Except.ok.inj h
  unfold Event.withText Event.withAdditional
  dsimp only
  split <;> split <;> rfl

theorem submitProposal_numbers {m : SubmitProposal}
    (hm : readAs SubmitProposal.layout "MsgSubmitProposal" payload = .ok m) :
    Numbers (submitProposal c payload) (numberedKey "initial_deposit") m.initialDeposit
      ((∃ a, c.account "proposer" m.proposer = .ok a) ∧ (m.content = [] ∨ HasContent c m.content) ∧
        Readable (c.log.paid "")) := by
  refine Numbers.of_ok "initial_deposit" (numberedKey_injective _) (fun e he => ?_)
    fun amounts hamounts ⟨⟨proposer, hproposer⟩, hcontent, hreadable⟩ => ?_
  · simp only [submitProposal, hm, bind_eq_ok, Except.ok.injEq, exists_eq_left'] at he
    obtain ⟨proposer, hproposer, amounts, hamounts, he⟩ := he
    split at he
    · next hempty =>
      have hadded := exists_addTransfers.1 ⟨e, he⟩
      refine ⟨⟨⟨proposer, hproposer⟩, .inl (List.isEmpty_iff.1 hempty), hadded⟩, amounts, hamounts, ?_⟩
      rw [amounts_of_addTransfers he]
      exact amounts_withNumbered _ _ rfl
    · simp only [bind_eq_ok] at he
      obtain ⟨raw, hraw, t, ht, he⟩ := he
      have hcontent : HasContent c m.content := ⟨raw, hraw, exists_addContent.1 ⟨t, ht⟩⟩
      have hadded := exists_addTransfers.1 ⟨e, he⟩
      refine ⟨⟨⟨proposer, hproposer⟩, .inr hcontent, hadded⟩, amounts, hamounts, ?_⟩
      rw [amounts_of_addTransfers he, amounts_of_addContent ht]
      exact amounts_withNumbered _ _ rfl
  · simp only [submitProposal, hm, bind_eq_ok, Except.ok.injEq, exists_eq_left']
    suffices hlast : ∃ e, _ = Except.ok e from
      hlast.imp fun e he => ⟨proposer, hproposer, amounts, hamounts, he⟩
    split
    · exact exists_addTransfers.2 hreadable
    · next hnonempty =>
      obtain ⟨raw, hraw, hfields⟩ := hcontent.resolve_left fun h => hnonempty (h ▸ rfl)
      obtain ⟨t, ht⟩ := exists_addContent.2 hfields
      obtain ⟨e, he⟩ := exists_addTransfers.2 hreadable
      exact ⟨e, bind_eq_ok.2 ⟨raw, hraw, bind_eq_ok.2 ⟨t, ht, he⟩⟩⟩

end Gov

/-! ## Instantiations -/

namespace Wasm

variable {payload : Bytes}

/-- Both forms of an instantiation come to the same, as far as their coins are concerned. -/
theorem instantiate_numbers {cs : List Coin} {others : Prop}
    (hread : ∀ fields, readInstantiate c payload = .ok fields → others ∧ fields.coins = cs)
    (hmade : others → ∃ fields, readInstantiate c payload = .ok fields) :
    Numbers (instantiate c payload) initCoinKey cs others := by
  refine Numbers.of_ok "init_coins" initCoinKey_injective (fun e he => ?_)
    fun amounts hamounts hothers => ?_
  · obtain ⟨fields, hfields, he⟩ := of_bind_ok he
    obtain ⟨amounts, hamounts, he⟩ := of_bind_ok he
    obtain rfl := Except.ok.inj he
    obtain ⟨hothers, rfl⟩ := hread fields hfields
    refine ⟨hothers, amounts, hamounts, amounts_withInitCoins _ ?_⟩
    cases fields.admin <;> rfl
  · obtain ⟨fields, hfields⟩ := hmade hothers
    obtain ⟨-, rfl⟩ := hread fields hfields
    exact ⟨_, bind_eq_ok.2 ⟨fields, hfields, bind_eq_ok.2 ⟨amounts, hamounts, rfl⟩⟩⟩

theorem owned_numbers (hencoding : c.encoding = .amino) {m : OwnedInstantiate}
    (hm : readAs OwnedInstantiate.layout "MsgInstantiateContract" payload = .ok m) :
    Numbers (instantiate c payload) initCoinKey m.coins (∃ a, c.account "owner" m.owner = .ok a) := by
  refine instantiate_numbers (fun fields hfields => ?_) fun ⟨owner, howner⟩ => ?_
  · simp only [readInstantiate, hencoding, hm, bind_eq_ok, Except.ok.injEq, exists_eq_left'] at hfields
    obtain ⟨owner, howner, hfields⟩ := hfields
    obtain rfl := Except.ok.inj hfields
    exact ⟨⟨owner, howner⟩, rfl⟩
  · simp only [readInstantiate, hencoding, hm, bind_eq_ok, Except.ok.injEq, exists_eq_left']
    exact ⟨_, owner, howner, rfl⟩

theorem administered_numbers (hencoding : c.encoding = .proto) {m : AdministeredInstantiate}
    (hm : readAs AdministeredInstantiate.layout "MsgInstantiateContract" payload = .ok m) :
    Numbers (instantiate c payload) initCoinKey m.coins
      ((m.admin = [] ∨ ∃ a, c.account "admin" m.admin = .ok a) ∧
        ∃ a, c.account "sender" m.sender = .ok a) := by
  refine instantiate_numbers (fun fields hfields => ?_) fun ⟨hadmin, owner, howner⟩ => ?_
  · simp only [readInstantiate, hencoding, hm, bind_eq_ok, Except.ok.injEq, exists_eq_left'] at hfields
    split at hfields
    · next hempty =>
      obtain ⟨_, -, hfields⟩ := of_bind_ok hfields
      obtain ⟨owner, howner, hfields⟩ := of_bind_ok hfields
      obtain rfl := Except.ok.inj hfields
      exact ⟨⟨.inl (List.isEmpty_iff.1 hempty), owner, howner⟩, rfl⟩
    · obtain ⟨_, hadmin, hfields⟩ := of_bind_ok hfields
      obtain ⟨owner, howner, hfields⟩ := of_bind_ok hfields
      obtain rfl := Except.ok.inj hfields
      have haccount : ∃ a, c.account "admin" m.admin = .ok a := by
        cases h : c.account "admin" m.admin with
        | error error =>
          rw [h] at hadmin
          cases hadmin
        | ok admin => exact ⟨admin, rfl⟩
      exact ⟨⟨.inr haccount, owner, howner⟩, rfl⟩
  · simp only [readInstantiate, hencoding, hm, bind_eq_ok, Except.ok.injEq, exists_eq_left']
    split
    · exact ⟨_, bind_eq_ok.2 ⟨none, rfl, bind_eq_ok.2 ⟨owner, howner, rfl⟩⟩⟩
    · next hnonempty =>
      obtain ⟨admin, hadmin⟩ := hadmin.resolve_left fun h => hnonempty (h ▸ rfl)
      have hsome : some <$> c.account "admin" m.admin = .ok (some admin) := by
        rw [hadmin]
        rfl
      exact ⟨_, bind_eq_ok.2 ⟨some admin, hsome, bind_eq_ok.2 ⟨owner, howner, rfl⟩⟩⟩

end Wasm

/-- **Every coin stands under its own key.** A deposit, a proposal or an instantiation whose fields are
read has an event exactly if all its coins can be read as amounts, and its accounts, its content and the
transfers of its log can be told. The event then has one amount for each coin, in the order of the coins,
each under its own key and found there. If a coin cannot be read, the mapping fails. -/
theorem coins_under_own_keys (c : Context) (payload : Bytes) :
    (∀ m, readAs Gov.Deposit.layout "MsgDeposit" payload = .ok m →
      Numbers (Gov.deposit c payload) (numberedKey "deposit") m.amount
        ((∃ a, c.account "depositor" m.depositor = .ok a) ∧ Readable (c.log.paid ""))) ∧
    (∀ m, readAs Gov.SubmitProposal.layout "MsgSubmitProposal" payload = .ok m →
      Numbers (Gov.submitProposal c payload) (numberedKey "initial_deposit") m.initialDeposit
        ((∃ a, c.account "proposer" m.proposer = .ok a) ∧
          (m.content = [] ∨ Gov.HasContent c m.content) ∧ Readable (c.log.paid ""))) ∧
    (c.encoding = .amino →
      ∀ m, readAs Wasm.OwnedInstantiate.layout "MsgInstantiateContract" payload = .ok m →
      Numbers (Wasm.instantiate c payload) initCoinKey m.coins
        (∃ a, c.account "owner" m.owner = .ok a)) ∧
    (c.encoding = .proto →
      ∀ m, readAs Wasm.AdministeredInstantiate.layout "MsgInstantiateContract" payload = .ok m →
      Numbers (Wasm.instantiate c payload) initCoinKey m.coins
        ((m.admin = [] ∨ ∃ a, c.account "admin" m.admin = .ok a) ∧
          ∃ a, c.account "sender" m.sender = .ok a)) := by
  refine ⟨fun m hm => ?_, fun m hm => ?_, fun hencoding m hm => ?_, fun hencoding m hm => ?_⟩
  · exact Gov.deposit_numbers hm
  · exact Gov.submitProposal_numbers hm
  · exact Wasm.owned_numbers hencoding hm
  · exact Wasm.administered_numbers hencoding hm

/-- A deposit of three coins, the last in the currency of the first. -/
def threeCoins : Gov.Deposit where
  proposalId := 7
  depositor := [1, 2, 3]
  amount := [⟨"uluna", "10"⟩, ⟨"ukrw", "20"⟩, ⟨"uluna", "30"⟩]

theorem coins_under_own_keys_three :
    let payload := Gov.Deposit.layout.write threeCoins
    readAs Gov.Deposit.layout "MsgDeposit" payload = .ok threeCoins ∧
    ∃ e, Gov.deposit ⟨.amino, {}⟩ payload = .ok e ∧
      OwnKeys e.amounts (numberedKey "deposit") threeCoins.amount ∧
      ∃ third, Coin.ReadsAs ⟨"uluna", "30"⟩ third ∧ e.amounts.get? "deposit_2" = some third := by
  intro payload
  have hread : readAs Gov.Deposit.layout "MsgDeposit" payload = .ok threeCoins := by decide +kernel
  obtain ⟨hdeposit, -⟩ := coins_under_own_keys ⟨.amino, {}⟩ payload
  obtain ⟨hmapped, -, hown⟩ := hdeposit threeCoins hread
  have hcoins : ∀ coin ∈ threeCoins.amount, ∃ a, coin.ReadsAs a := by
    have htexts : ∀ coin ∈ threeCoins.amount,
        (Amount.parse coin.amount coin.denom).isOk = true := by decide +kernel
    intro coin hcoin
    have hok := htexts coin hcoin
    cases hparse : Amount.parse coin.amount coin.denom with
    | ok a => exact ⟨a, hparse⟩
    | error error =>
      rw [hparse] at hok
      cases hok
  obtain ⟨e, he⟩ := hmapped.2 ⟨hcoins, ⟨_, rfl⟩, List.forall_mem_nil _⟩
  have hkeys := hown e he
  obtain ⟨third, hthird, -, hget⟩ := hkeys.entry 2 _ rfl
  exact ⟨hread, e, he, hkeys, third, hthird, hget⟩

end Message

end ChainIndex
