import ChainIndex.Proofs.GroupedAttributes
import Mathlib.Data.List.Nodup

/-!
# Amounts are paired by place

A transfer event lists recipient, sender and amount once per movement, and its attributes keep the
recipients in one list and the amounts in another. The two lists are then paired place by place. So an
amount goes to its own recipient as long as no movement without an amount stands before one that has an
amount (`Leg.Aligned`), and only then: behind such a gap each amount goes to the recipient of an earlier
movement.

* `paired_eq_settled`: if no gap stands before an amount, each amount is paired with its own recipient.
* `Leg.aligned_of_own`: if each of several recipients gets what is its own, there is no such gap.
* `Event.attributed_iff_aligned`: **what a transfer event moves, and when it is the recipients' own.**
-/

namespace ChainIndex

/-- One movement as a transfer event lists it. -/
structure Leg where
  recipient : String
  sender : Option String := none
  amount : Option String := none
deriving DecidableEq, Repr

namespace Leg

/-- The attributes of a movement, in the order in which they are listed. -/
def attributes (leg : Leg) : List (String × String) :=
  ("recipient", leg.recipient) ::
    (leg.sender.toList.map ("sender", ·) ++ leg.amount.toList.map ("amount", ·))

/-- The movements that have an amount, each recipient with its own amount. -/
def settled (legs : List Leg) : List (String × String) :=
  legs.filterMap fun leg => leg.amount.map (leg.recipient, ·)

/-- The coins of a recipient's own movements, in order. -/
def ownCoins (legs : List Leg) (recipient : String) : List Amount :=
  (legs.filter fun leg => leg.recipient = recipient).flatMap fun leg =>
    leg.amount.toList.flatMap coinsOf

/-- No movement without an amount stands before one that has an amount. -/
def Aligned (legs : List Leg) : Prop :=
  legs.Pairwise fun leg later => leg.amount = none → later.amount = none

/-- The recipients and the amounts, paired place by place. -/
def paired (legs : List Leg) : List (String × String) :=
  (legs.map recipient).zip (legs.filterMap amount)

theorem sharesOf_settled (legs : List Leg) (r : String) :
    sharesOf (settled legs) r = ownCoins legs r := by
  induction legs with
  | nil => rfl
  | cons leg legs ih =>
    unfold sharesOf settled ownCoins at ih ⊢
    cases hamount : leg.amount with
    | none => by_cases h : leg.recipient = r <;> simp [hamount, h, ih]
    | some amount => by_cases h : leg.recipient = r <;> simp [hamount, h, ih]

theorem ownCoins_of_not_mem {legs : List Leg} {r : String} (h : r ∉ legs.map recipient) :
    ownCoins legs r = [] := by
  rw [ownCoins, filter_of_not_mem_map h, List.flatMap_nil]

theorem paired_eq_settled {legs : List Leg} (h : Aligned legs) : paired legs = settled legs := by
  induction legs with
  | nil => rfl
  | cons leg legs ih =>
    obtain ⟨hleg, hlegs⟩ := List.pairwise_cons.1 h
    have hrest := ih hlegs
    unfold paired settled at hrest ⊢
    cases hamount : leg.amount with
    | some amount => simp [hamount, hrest]
    | none =>
      -- after a gap there are no amounts at all
      have hnone : ∀ later ∈ legs, later.amount = none := fun later hlater =>
        hleg later hlater hamount
      have hamounts : legs.filterMap amount = [] := List.filterMap_eq_nil_iff.2 hnone
      have hsettled : (legs.filterMap fun leg => leg.amount.map (leg.recipient, ·)) = [] :=
        List.filterMap_eq_nil_iff.2 fun later hlater => by rw [hnone later hlater, Option.map_none]
      simp [hamount, hamounts, hsettled]

/-- **Who gets only what is its own has no gap before it**: the recipient of a movement without an amount
would get the coins of a later one. -/
theorem aligned_of_own {legs : List Leg} (hnodup : (legs.map recipient).Nodup)
    (hcoins : ∀ leg ∈ legs, ∀ amount ∈ leg.amount, coinsOf amount ≠ [])
    (hown : ∀ r, sharesOf (paired legs) r = ownCoins legs r) : Aligned legs := by
  induction legs with
  | nil => exact List.Pairwise.nil
  | cons leg legs ih =>
    obtain ⟨hnew, hothers⟩ := List.nodup_cons.1 hnodup
    have hlater := fun later h => hcoins later (List.mem_cons_of_mem leg h)
    unfold paired at hown
    cases hamount : leg.amount with
    | some amount =>
      -- the first amount is at its place, and so are the others
      have hrest : ∀ r, sharesOf (paired legs) r = ownCoins legs r := by
        intro r
        have hr := hown r
        unfold sharesOf ownCoins at hr
        by_cases h : leg.recipient = r
        · simpa [hamount, h, sharesOf, ownCoins, paired] using hr
        · simpa [hamount, h, sharesOf, ownCoins, paired] using hr
      refine List.pairwise_cons.2 ⟨fun _ _ hnone => ?_, ih hothers hlater hrest⟩
      exact absurd (hamount.symm.trans hnone) (Option.some_ne_none amount)
    | none =>
      -- the first recipient owns nothing, so nothing is left for it to get
      have hnothing : ownCoins (leg :: legs) leg.recipient = [] := by
        have hrest := ownCoins_of_not_mem hnew
        unfold ownCoins at hrest ⊢
        simp [hamount, hrest]
      have hamounts : legs.filterMap amount = [] := by
        cases hcons : legs.filterMap amount with
        | nil => rfl
        | cons amount amounts =>
          obtain ⟨owner, howner, hits⟩ := List.mem_filterMap.1 (hcons ▸ List.mem_cons_self)
          have hgot := (hown leg.recipient).trans hnothing
          simp only [sharesOf, List.map_cons, List.filterMap_cons, hamount, hcons,
            List.zip_cons_cons, List.filter_cons, decide_true, if_true, List.flatMap_cons,
            List.append_eq_nil_iff] at hgot
          exact absurd hgot.1 (hlater owner howner amount hits)
      have hnone : ∀ later ∈ legs, later.amount = none := List.filterMap_eq_nil_iff.1 hamounts
      refine List.pairwise_cons.2 ⟨fun later h _ => hnone later h, ?_⟩
      exact List.pairwise_of_forall_mem_list fun _ _ later h _ => hnone later h

end Leg

/-! ## The attributes of a transfer event -/

namespace Attributes

/-- A list of attributes keeps what its pieces list, one piece after the other. -/
theorem ofPairs_legs (legs : List Leg) :
    (ofPairs (legs.flatMap Leg.attributes)).recipient = legs.map Leg.recipient ∧
      (ofPairs (legs.flatMap Leg.attributes)).amount = legs.filterMap Leg.amount := by
  rw [ofPairs_eq]
  show valuesOf _ "recipient" = _ ∧ valuesOf _ "amount" = _
  induction legs with
  | nil => exact ⟨rfl, rfl⟩
  | cons leg legs ih =>
    obtain ⟨hrecipients, hamounts⟩ := ih
    rw [List.flatMap_cons, valuesOf_append, valuesOf_append, hrecipients, hamounts]
    obtain ⟨recipient, sender, amount⟩ := leg
    cases sender <;> cases amount <;> exact ⟨rfl, rfl⟩

end Attributes

/-- What a recipient gets. -/
def creditOf (ms : List Movement) (recipient : String) : List Amount :=
  (ms.filter fun m => m.account.id = recipient).flatMap Movement.amounts

theorem creditOf_movements (payments : List (String × String)) (r : String) :
    creditOf (movements payments) r = sharesOf payments r := by
  obtain ⟨hkeys, hnodup⟩ := keys_gathered payments
  rw [hkeys] at hnodup
  have hcredit : creditOf (movements payments) r =
      ((payments.map Prod.fst).eraseDups.filter fun k => k = r).flatMap (sharesOf payments) := by
    rw [creditOf, movements, List.filter_map, List.flatMap_map]
    rfl
  rw [hcredit, List.filter_eq]
  by_cases h : r ∈ payments.map Prod.fst
  · rw [List.count_eq_one_of_mem hnodup (List.mem_eraseDups.2 h)]
    exact List.append_nil _
  · rw [List.count_eq_zero.2 (mt List.mem_eraseDups.1 h), sharesOf_of_not_mem h]
    rfl

theorem Leg.readable_paired {legs : List Leg}
    (h : ∀ leg ∈ legs, ∀ amount ∈ leg.amount, ∃ coins, Amount.parseList amount = .ok coins) :
    Readable (Leg.paired legs) := by
  rintro ⟨recipient, amount⟩ hp
  obtain ⟨leg, hleg, hamount⟩ := List.mem_filterMap.1 (List.of_mem_zip hp).2
  exact h leg hleg amount hamount

/-- The items of an attribute list. -/
def Leg.items (legs : List Leg) : List Json :=
  (legs.flatMap Leg.attributes).map fun p =>
    .object [("key", .text p.1), ("value", .text p.2)]

theorem Leg.reads_items (legs : List Leg) :
    List.Forall₂ Attributes.Reads (Leg.items legs) (legs.flatMap Leg.attributes) := by
  rw [Leg.items, List.forall₂_map_left_iff, List.forall₂_same]
  exact fun p _ => ⟨rfl, rfl⟩

namespace Event

variable {e : Event} {kind : String} {items : List Json} {legs : List Leg}

/-- **An amount goes to the recipient at its place.** A transfer event that lists movements is read, and
it moves the amounts to the recipients at the same places. If no movement without an amount stands before
one that has an amount, each recipient gets the coins of its own movements and no others. If the
recipients are different and no amount is empty, this is the only case in which they do. -/
theorem attributed_iff_aligned
    (hreads : List.Forall₂ Attributes.Reads items (legs.flatMap Leg.attributes))
    (hreadable : ∀ leg ∈ legs, ∀ amount ∈ leg.amount, ∃ coins, Amount.parseList amount = .ok coins)
    (hnone : e.transfers.get? kind = none) :
    ∃ a, Attributes.ofJson? (.array items) = some a ∧ ∀ entry : LogEntry,
      entry.eventsOf "transfer" = [{ kind := "transfer", attributes := a }] →
      let run := (produceTransfers kind "" entry).run e
      let moved := (run.2.transfers.get? kind).getD []
      run.1 = .ok () ∧ moved = movements (Leg.paired legs) ∧
      (Leg.Aligned legs → moved = movements (Leg.settled legs) ∧
        ∀ r, creditOf moved r = Leg.ownCoins legs r) ∧
      ((legs.map Leg.recipient).Nodup →
        (∀ leg ∈ legs, ∀ amount ∈ leg.amount, coinsOf amount ≠ []) →
        (∀ r, creditOf moved r = Leg.ownCoins legs r) → Leg.Aligned legs) := by
  refine ⟨_, Attributes.ofJson?_array hreads, fun entry hentry => ?_⟩
  have hpaid : entry.paid "" = Leg.paired legs := by
    obtain ⟨hrecipients, hamounts⟩ := Attributes.ofPairs_legs legs
    have hpayments : entry.payments = Leg.paired legs := by
      rw [LogEntry.payments, hentry, List.flatMap_singleton, hrecipients, hamounts, Leg.paired]
    rw [← entry.payments_filter, hpayments]
    exact List.filter_eq_self.2 fun _ _ => rfl
  have hrun := produceTransfers_ok e kind "" entry (hpaid ▸ Leg.readable_paired hreadable)
  rw [hpaid] at hrun
  intro run moved
  have hmoved : moved = movements (Leg.paired legs) := by
    have hafter : run.2 = _ := congrArg Prod.snd hrun
    show (run.2.transfers.get? kind).getD [] = _
    rw [hafter]
    split
    · next hempty => rw [hnone, hempty]; rfl
    · rw [Keyed.get?_insert, if_pos rfl, Option.getD_some]
  refine ⟨congrArg Prod.fst hrun, hmoved, fun haligned => ?_, fun hnodup hcoins hown => ?_⟩
  · have hsettled : moved = movements (Leg.settled legs) := by
      rw [hmoved, Leg.paired_eq_settled haligned]
    refine ⟨hsettled, fun r => ?_⟩
    rw [hsettled, creditOf_movements, Leg.sharesOf_settled]
  · refine Leg.aligned_of_own hnodup hcoins fun r => ?_
    rw [← creditOf_movements, ← hmoved]
    exact hown r

/-- A movement with two coins, and then one without an amount. -/
def gapLast : List Leg :=
  [⟨"terra1a", some "terra1s", some "5uluna,7ukrw"⟩, ⟨"terra1b", none, none⟩]

theorem attributed_iff_aligned_gapLast :
    List.Forall₂ Attributes.Reads (Leg.items gapLast) (gapLast.flatMap Leg.attributes) ∧
    Leg.Aligned gapLast ∧
    ∃ a, Attributes.ofJson? (.array (Leg.items gapLast)) = some a ∧
      let entry : LogEntry := { events := [{ kind := "transfer", attributes := a }] }
      let run := (produceTransfers sendKind "" entry).run {}
      let moved := (run.2.transfers.get? sendKind).getD []
      run.1 = .ok () ∧ creditOf moved "terra1a" = coinsOf "5uluna,7ukrw" ∧
        creditOf moved "terra1b" = [] := by
  have haligned : Leg.Aligned gapLast := by
    unfold Leg.Aligned gapLast
    decide
  have hreadable : ∀ leg ∈ gapLast, ∀ amount ∈ leg.amount,
      ∃ coins, Amount.parseList amount = .ok coins := by
    have hcoins : ∀ leg ∈ gapLast, ∀ amount ∈ leg.amount,
        Amount.parseList amount = .ok (coinsOf amount) := by decide +kernel
    exact fun leg hleg amount hamount => ⟨_, hcoins leg hleg amount hamount⟩
  obtain ⟨a, ha, hmoves⟩ := attributed_iff_aligned (Leg.reads_items gapLast) hreadable
    (show ({} : Event).transfers.get? sendKind = none from rfl)
  obtain ⟨hok, -, hown, -⟩ := hmoves { events := [{ kind := "transfer", attributes := a }] } rfl
  obtain ⟨-, hcredit⟩ := hown haligned
  refine ⟨Leg.reads_items gapLast, haligned, a, ha, hok, ?_, ?_⟩
  · rw [hcredit]
    decide +kernel
  · rw [hcredit]
    decide +kernel

/-- A movement without an amount, and then one with an amount. -/
def gapFirst : List Leg :=
  [⟨"terra1a", none, none⟩, ⟨"terra1b", none, some "5uluna"⟩]

/-- **A movement without an amount takes the amount of the next one**: its recipient gets coins that are
not its own, and the recipient they were for gets nothing. -/
theorem gapFirst_takes_next :
    List.Forall₂ Attributes.Reads (Leg.items gapFirst) (gapFirst.flatMap Leg.attributes) ∧
    (∀ leg ∈ gapFirst, ∀ amount ∈ leg.amount, Amount.parseList amount = .ok (coinsOf amount)) ∧
    ∃ a, Attributes.ofJson? (.array (Leg.items gapFirst)) = some a ∧
      let entry : LogEntry := { events := [{ kind := "transfer", attributes := a }] }
      let run := (produceTransfers sendKind "" entry).run {}
      let moved := (run.2.transfers.get? sendKind).getD []
      run.1 = .ok () ∧
      creditOf moved "terra1a" = coinsOf "5uluna" ∧ Leg.ownCoins gapFirst "terra1a" = [] ∧
      creditOf moved "terra1b" = [] ∧ Leg.ownCoins gapFirst "terra1b" = coinsOf "5uluna" ∧
      coinsOf "5uluna" ≠ [] := by
  refine ⟨Leg.reads_items _, by decide +kernel, _, Attributes.ofJson?_array (Leg.reads_items _), ?_⟩
  decide +kernel

end Event

end ChainIndex
