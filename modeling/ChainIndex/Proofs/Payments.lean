import ChainIndex.Event.Transfers
import Mathlib.Data.List.Induction
import Mathlib.Data.List.Perm.Basic

/-!
# Transfers conserve what was paid

The payments of a log entry are folded into one movement for each recipient. A fold that succeeds is a fold
without errors (`received_ok`), and its keys and values are known after every prefix: the keys are the
recipients in the order in which they first appear, and a recipient has the coins of its own payments in
their order (`received_shares`). A fold that fails does so at the first amount that cannot be read.

* `grouped_perm`: grouping by recipient loses nothing and invents nothing.
* `Event.transfers_conserved`: **the event of a log entry moves exactly what was paid, or stays as it is.**
-/

namespace ChainIndex

/-- The payments of a log entry: each recipient with the amount at the same place, event by event, but
none to an address that is to be skipped. -/
def LogEntry.paid (entry : LogEntry) (skipped : String) : List (String × String) :=
  ((entry.events.filter fun e => e.kind = "transfer").flatMap fun e =>
    e.attributes.recipient.zip e.attributes.amount).filter fun p => skipped = "" ∨ p.1 ≠ skipped

/-- The coins of an amount that can be read. -/
def coinsOf (amount : String) : List Amount :=
  (Amount.parseList amount).toOption.getD []

/-- All coins of the payments to a recipient, in order. -/
def sharesOf (payments : List (String × String)) (recipient : String) : List Amount :=
  (payments.filter fun p => p.1 = recipient).flatMap fun p => coinsOf p.2

/-- One movement for each recipient, in the order in which they first appear. -/
def movements (payments : List (String × String)) : List Movement :=
  (payments.map Prod.fst).eraseDups.map fun r =>
    { account := { id := r }, amounts := sharesOf payments r }

/-- Every amount can be read. -/
def Readable (payments : List (String × String)) : Prop :=
  ∀ p ∈ payments, ∃ coins, Amount.parseList p.2 = .ok coins

theorem LogEntry.payments_filter (entry : LogEntry) (skipped : String) :
    (entry.payments.filter fun p => skipped.isEmpty || p.1 != skipped) = entry.paid skipped := by
  rw [paid]
  refine List.filter_congr fun p _ => ?_
  rw [Bool.eq_iff_iff]
  simp

theorem filter_of_not_mem_map {α : Type} {l : List α} {key : α → String} {k : String}
    (h : k ∉ l.map key) : l.filter (fun x => key x = k) = [] := by
  rw [List.filter_eq_nil_iff]
  intro x hx heq
  exact h (of_decide_eq_true heq ▸ List.mem_map_of_mem hx)

/-! ## Maps by their keys and values -/

namespace Keyed

variable {α β : Type}

/-- A map with different keys is known by its keys and what stands at each. -/
theorem eq_map_keys {m : Keyed α} (hnodup : m.keys.Nodup) {f : String → α}
    (h : ∀ k ∈ m.keys, m.get? k = some (f k)) : m = m.keys.map fun k => (k, f k) := by
  induction m with
  | nil => rfl
  | cons p rest ih =>
    obtain ⟨k, v⟩ := p
    obtain ⟨hk, hrest⟩ := List.nodup_cons.1 hnodup
    have hv : v = f k := by
      have hget : get? ((k, v) :: rest) k = some v := List.lookup_cons_self
      exact Option.some.inj (hget.symm.trans (h k List.mem_cons_self))
    have hothers : ∀ other ∈ keys rest, get? rest other = some (f other) := by
      intro other hother
      have hne : (other == k) = false := by
        rw [beq_eq_false_iff_ne]
        rintro rfl
        exact hk hother
      have hget : get? ((k, v) :: rest) other = get? rest other := by
        rw [get?, get?, List.lookup_cons, hne]
      exact hget.symm.trans (h other (List.mem_cons_of_mem _ hother))
    show (k, v) :: rest = (k, f k) :: (keys rest).map fun k => (k, f k)
    rw [hv, ← ih hrest hothers]

/-- What the values at a key give together. -/
def allAt (f : β → List α) (pairs : List (String × β)) (key : String) : List α :=
  (pairs.filter fun p => p.1 = key).flatMap fun p => f p.2

/-- What the values of pairs give, collected under their keys one pair after the other. -/
def collect (f : β → List α) (pairs : List (String × β)) : Keyed (List α) :=
  pairs.foldl (fun acc p => acc.alter p.1 fun old => old.getD [] ++ f p.2) []

section Collect

variable (f : β → List α) (pairs : List (String × β))

theorem collect_concat (p : String × β) :
    collect f (pairs ++ [p]) = (collect f pairs).alter p.1 fun old => old.getD [] ++ f p.2 := by
  unfold collect
  rw [List.foldl_append]
  rfl

theorem allAt_concat (p : String × β) (key : String) :
    allAt f (pairs ++ [p]) key = allAt f pairs key ++ if p.1 = key then f p.2 else [] := by
  unfold allAt
  rw [List.filter_append, List.flatMap_append]
  by_cases h : p.1 = key <;> simp [h]

variable {pairs} in
theorem allAt_of_not_mem {key : String} (h : key ∉ pairs.map Prod.fst) : allAt f pairs key = [] := by
  rw [allAt, filter_of_not_mem_map h, List.flatMap_nil]

/-- The keys stand where they first appeared. -/
theorem keys_collect : (collect f pairs).keys = (pairs.map Prod.fst).eraseDups ∧
    (collect f pairs).keys.Nodup := by
  -- one pair after the other: a key that is new comes last
  induction pairs using List.reverseRecOn with
  | nil => exact ⟨rfl, List.nodup_nil⟩
  | append_singleton pairs p ih =>
    obtain ⟨hkeys, hnodup⟩ := ih
    have hmem : p.1 ∈ (collect f pairs).keys ↔ p.1 ∈ pairs.map Prod.fst := by
      rw [hkeys, List.mem_eraseDups]
    rw [collect_concat, keys_alter, List.map_append, List.map_singleton, List.eraseDups_append,
      ← hkeys]
    by_cases h : p.1 ∈ pairs.map Prod.fst
    · have hnone : [p.1].removeAll (pairs.map Prod.fst) = [] := by
        simpa [List.removeAll] using h
      rw [if_pos (hmem.2 h), hnone]
      exact ⟨(List.append_nil _).symm, hnodup⟩
    · have hnew : [p.1].removeAll (pairs.map Prod.fst) = [p.1] := by
        simpa [List.removeAll] using h
      rw [if_neg (mt hmem.1 h), hnew]
      refine ⟨rfl, List.nodup_append.2 ⟨hnodup, by simp, ?_⟩⟩
      rintro k hk _ hp rfl
      exact h (hmem.1 (List.mem_singleton.1 hp ▸ hk))

/-- At each key stands what its own values give. -/
theorem get?_collect (key : String) : (collect f pairs).get? key =
    if key ∈ pairs.map Prod.fst then some (allAt f pairs key) else none := by
  induction pairs using List.reverseRecOn with
  | nil => rfl
  | append_singleton pairs p ih =>
    rw [collect_concat, get?_alter, allAt_concat]
    by_cases hp : key = p.1
    · subst hp
      rw [ih]
      by_cases h : p.1 ∈ pairs.map Prod.fst
      · simp [h]
      · simp [h, allAt_of_not_mem f h]
    · have hne : p.1 ≠ key := fun e => hp e.symm
      have hmem : key ∈ (pairs ++ [p]).map Prod.fst ↔ key ∈ pairs.map Prod.fst := by
        rw [List.map_append, List.mem_append, List.map_singleton, List.mem_singleton,
          or_iff_left hp]
      rw [if_neg hp, if_neg hne, List.append_nil, ih]
      exact if_congr hmem.symm rfl rfl

end Collect

end Keyed

/-! ## What each recipient got -/

section Fold

variable {payments : List (String × String)}

/-- What each recipient got if every amount can be read. -/
def gathered (payments : List (String × String)) : Keyed (List Amount) :=
  payments.foldl (fun acc p => Keyed.alter acc p.1 fun old => old.getD [] ++ coinsOf p.2) []

theorem parseList_coinsOf {amount : String} {coins : List Amount}
    (h : Amount.parseList amount = .ok coins) : Amount.parseList amount = .ok (coinsOf amount) := by
  rw [coinsOf, h]
  rfl

theorem received_ok (h : Readable payments) : Event.received payments = .ok (gathered payments) := by
  unfold Event.received gathered
  generalize ([] : Keyed (List Amount)) = acc
  induction payments generalizing acc with
  | nil => rfl
  | cons p payments ih =>
    obtain ⟨recipient, amount⟩ := p
    obtain ⟨⟨coins, hcoins⟩, hpayments⟩ := List.forall_mem_cons.1 h
    rw [List.foldlM_cons]
    simp only [parseList_coinsOf hcoins]
    exact ih hpayments _

/-- The first amount that cannot be read decides. -/
theorem received_error {before rest : List (String × String)} {p : String × String}
    {error : Amount.Error} (hbefore : Readable before)
    (herror : Amount.parseList p.2 = .error error) :
    Event.received (before ++ p :: rest) = .error error := by
  have hok := received_ok hbefore
  obtain ⟨recipient, amount⟩ := p
  simp only [Event.received] at hok herror ⊢
  rw [List.foldlM_append, hok]
  simp only [List.foldlM_cons, herror, bind, Except.bind]

theorem sharesOf_of_not_mem {recipient : String} (h : recipient ∉ payments.map Prod.fst) :
    sharesOf payments recipient = [] :=
  Keyed.allAt_of_not_mem coinsOf h

theorem keys_gathered (payments : List (String × String)) :
    (gathered payments).keys = (payments.map Prod.fst).eraseDups ∧ (gathered payments).keys.Nodup :=
  Keyed.keys_collect coinsOf payments

theorem get?_gathered (payments : List (String × String)) (recipient : String) :
    (gathered payments).get? recipient =
      if recipient ∈ payments.map Prod.fst then some (sharesOf payments recipient) else none :=
  Keyed.get?_collect coinsOf payments recipient

/-- **Each recipient got the coins of its own payments**, and stands where it first appeared. -/
theorem received_shares (h : Readable payments) : Event.received payments =
    .ok ((payments.map Prod.fst).eraseDups.map fun r => (r, sharesOf payments r)) := by
  obtain ⟨hkeys, hnodup⟩ := keys_gathered payments
  have hvalues : ∀ r ∈ (gathered payments).keys,
      (gathered payments).get? r = some (sharesOf payments r) := by
    intro r hr
    rw [hkeys, List.mem_eraseDups] at hr
    rw [get?_gathered, if_pos hr]
  rw [received_ok h, ← hkeys, ← Keyed.eq_map_keys hnodup hvalues]

end Fold

/-! ## Nothing is lost -/

/-- **Grouping by a key loses nothing**: it only changes the order. -/
theorem grouped_perm {α : Type} (pairs : List (String × α)) :
    ((pairs.map Prod.fst).eraseDups.flatMap fun k => pairs.filter fun p => p.1 = k).Perm pairs := by
  match pairs with
  | [] => exact .nil
  | p :: rest =>
    -- the pairs of the first key, and all others, which are fewer
    set others := rest.filter fun q => !decide (q.1 = p.1) with hothers
    have hfirst : (p :: rest).filter (fun q => !decide (q.1 = p.1)) = others := by simp [hothers]
    have hkeys : ((p :: rest).map Prod.fst).eraseDups = p.1 :: (others.map Prod.fst).eraseDups := by
      have hrest : rest.filter ((fun k => !k == p.1) ∘ Prod.fst) = others :=
        List.filter_congr fun q _ => by simp [beq_eq_decide]
      rw [List.map_cons, List.eraseDups_cons, List.filter_map, hrest]
    have hgroups : ((others.map Prod.fst).eraseDups.flatMap fun k =>
        (p :: rest).filter fun q => q.1 = k) =
        (others.map Prod.fst).eraseDups.flatMap fun k => others.filter fun q => q.1 = k := by
      refine List.flatMap_congr fun k hk => ?_
      obtain ⟨q, hq, rfl⟩ := List.mem_map.1 (List.mem_eraseDups.1 hk)
      have hne : q.1 ≠ p.1 := by simpa [hothers] using (List.mem_filter.1 hq).2
      rw [← hfirst, List.filter_filter]
      refine List.filter_congr fun x _ => ?_
      by_cases hx : x.1 = q.1 <;> simp [hx, hne]
    rw [hkeys, List.flatMap_cons, hgroups]
    refine ((grouped_perm others).append_left _).trans ?_
    rw [← hfirst]
    exact List.filter_append_perm _ _
termination_by pairs.length
decreasing_by exact Nat.lt_succ_of_le (List.length_filter_le _ _)

/-- Each coin with the one who gets it. -/
def coinsMoved (ms : List Movement) : List (String × Amount) :=
  ms.flatMap fun m => m.amounts.map fun a => (m.account.id, a)

theorem coinsMoved_movements (payments : List (String × String)) :
    (coinsMoved (movements payments)).Perm
      (payments.flatMap fun p => (coinsOf p.2).map fun a => (p.1, a)) := by
  have hgroups : coinsMoved (movements payments) =
      ((payments.map Prod.fst).eraseDups.flatMap fun r => payments.filter fun p => p.1 = r).flatMap
        fun p => (coinsOf p.2).map fun a => (p.1, a) := by
    unfold coinsMoved movements sharesOf
    rw [List.flatMap_map, List.flatMap_assoc]
    refine List.flatMap_congr fun r _ => ?_
    rw [List.map_flatMap]
    refine List.flatMap_congr fun p hp => ?_
    rw [← of_decide_eq_true (List.mem_filter.1 hp).2]
  rw [hgroups]
  exact (grouped_perm payments).flatMap_right _

/-! ## The event -/

theorem exists_unreadable {payments : List (String × String)} (h : ¬Readable payments) :
    ∃ before p rest error, payments = before ++ p :: rest ∧ Readable before ∧
      Amount.parseList p.2 = .error error := by
  induction payments with
  | nil => exact absurd (List.forall_mem_nil _) h
  | cons p payments ih =>
    cases hp : Amount.parseList p.2 with
    | error error => exact ⟨[], p, payments, error, rfl, List.forall_mem_nil _, hp⟩
    | ok coins =>
      have hrest : ¬Readable payments := fun hrest =>
        h (List.forall_mem_cons.2 ⟨⟨coins, hp⟩, hrest⟩)
      obtain ⟨before, q, rest, error, rfl, hbefore, hq⟩ := ih hrest
      exact ⟨p :: before, q, rest, error, rfl, List.forall_mem_cons.2 ⟨⟨coins, hp⟩, hbefore⟩, hq⟩

namespace Event

variable (e : Event) (kind skipped : String) (entry : LogEntry)

theorem produceTransfers_ok (h : Readable (entry.paid skipped)) :
    (produceTransfers kind skipped entry).run e = (.ok (), if entry.paid skipped = [] then e else
      { e with transfers := e.transfers.insert kind (movements (entry.paid skipped)) }) := by
  rw [produceTransfers_run, entry.payments_filter, received_shares h]
  generalize entry.paid skipped = paid
  cases paid with
  | nil => rfl
  | cons p rest =>
    have hmoved : movementsOf (((p :: rest).map Prod.fst).eraseDups.map fun r =>
        (r, sharesOf (p :: rest) r)) = movements (p :: rest) := List.map_map
    rw [if_neg (List.cons_ne_nil p rest), ← hmoved, List.map_cons, List.eraseDups_cons]
    rfl

theorem produceTransfers_error {before rest : List (String × String)} {p : String × String}
    {error : Amount.Error} (hpaid : entry.paid skipped = before ++ p :: rest)
    (hbefore : Readable before) (herror : Amount.parseList p.2 = .error error) :
    (produceTransfers kind skipped entry).run e = (.error error, e) := by
  rw [produceTransfers_run, entry.payments_filter, hpaid, received_error hbefore herror]

theorem ne_of_mem_movements {m : Movement} (hskipped : skipped ≠ "")
    (h : m ∈ movements (entry.paid skipped)) : m.account.id ≠ skipped := by
  obtain ⟨r, hr, rfl⟩ := List.mem_map.1 h
  obtain ⟨p, hp, rfl⟩ := List.mem_map.1 (List.mem_eraseDups.1 hr)
  have hkept := of_decide_eq_true (List.mem_filter.1 hp).2
  exact hkept.resolve_left hskipped

/-- **Transfers conserve what was paid.** If every amount can be read, and something was paid, the event
gets one movement for each recipient, in the order in which they first appear, with the coins of all its
payments in order: each coin that was paid is moved once and to the one it was paid to, and nothing to
an address that is to be skipped. If nothing was paid, or an amount cannot be read, the event stays as it
is, and the error is that of the first such amount. In no case anything changes but the transfers of this
kind. -/
theorem transfers_conserved :
    let paid := entry.paid skipped
    let result := ((produceTransfers kind skipped entry).run e).1
    let after := ((produceTransfers kind skipped entry).run e).2
    (Readable paid → result = .ok () ∧
      (paid ≠ [] → after.transfers.get? kind = some (movements paid)) ∧
      (coinsMoved (movements paid)).Perm
        (paid.flatMap fun p => (coinsOf p.2).map fun a => (p.1, a)) ∧
      (skipped ≠ "" → ∀ m ∈ movements paid, m.account.id ≠ skipped)) ∧
    (paid = [] → after = e) ∧
    (¬Readable paid → after = e ∧ ∃ before p rest error, paid = before ++ p :: rest ∧
      Readable before ∧ Amount.parseList p.2 = .error error ∧ result = .error error) ∧
    (∀ other, other ≠ kind → after.transfers.get? other = e.transfers.get? other) ∧
    after = { e with transfers := after.transfers } := by
  intro paid result after
  by_cases hreadable : Readable paid
  · have hrun := produceTransfers_ok e kind skipped entry hreadable
    have hresult : result = .ok () := congrArg Prod.fst hrun
    have hafter : after = if paid = [] then e else
        { e with transfers := e.transfers.insert kind (movements paid) } := congrArg Prod.snd hrun
    refine ⟨fun _ => ⟨hresult, fun hpaid => ?_, coinsMoved_movements paid, fun hskipped m =>
      ne_of_mem_movements skipped entry hskipped⟩, fun hpaid => ?_, absurd hreadable, ?_, ?_⟩
    · rw [hafter, if_neg hpaid, Keyed.get?_insert, if_pos rfl]
    · rw [hafter, if_pos hpaid]
    · intro other hother
      rw [hafter]
      split
      · rfl
      · rw [Keyed.get?_insert, if_neg hother]
    · rw [hafter]
      split
      · cases e
        rfl
      · rfl
  · obtain ⟨before, p, rest, error, hpaid, hbefore, herror⟩ := exists_unreadable hreadable
    have hrun := produceTransfers_error e kind skipped entry hpaid hbefore herror
    have hresult : result = .error error := congrArg Prod.fst hrun
    have hafter : after = e := congrArg Prod.snd hrun
    refine ⟨fun h => absurd h hreadable, fun _ => hafter,
      fun _ => ⟨hafter, before, p, rest, error, hpaid, hbefore, herror, hresult⟩, ?_, ?_⟩
    · intro other _
      rw [hafter]
    · rw [hafter]
      cases e
      rfl

end Event

end ChainIndex
