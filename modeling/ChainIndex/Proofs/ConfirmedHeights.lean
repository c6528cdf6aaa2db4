import ChainIndex.Proofs.ExactDelivery
import ChainIndex.Proofs.Storing

/-!
# The transactions of a confirmed height

A node that keeps a ledger answers rightly or not at all: for a height with its block, for height zero
with some block, and for a page with what the ledger has on it (`Ledger.Known`). What is searched for is
the height that was asked for, and what is confirmed is the height of the block that came.

* `confirmed_transactions`: **these agree unless the newest block was asked for**; then nothing that is
  searched for belongs to the confirmed height.
* `newest_unfetched`: a newest block that is confirmed without its transaction.
-/

namespace ChainIndex

open Indexer (plan Storing)
open Indexer.Storing (Performs ending)

variable {σ κ : Type} [Clocked σ]

/-! ## Sources that answer -/

/-- What comes of the questions for one height, as long as the world keeps to `I`. -/
structure Source.Answers (source : Source σ) (deadline : Deadline)
    (block : Height → Except NodeError Block → Prop) (search : SearchPage → SearchReply → Prop)
    (I : σ → Prop) : Prop where
  block : ∀ height world, I world →
    block height ((source.block height deadline).run world).1 ∧
      I ((source.block height deadline).run world).2
  search : ∀ page world, I world →
    search page ((source.search page deadline).run world).1 ∧
      I ((source.search page deadline).run world).2

/-- A deed is answered as it may be. -/
def Deed.Answered (block : Height → Except NodeError Block → Prop)
    (search : SearchPage → SearchReply → Prop) : Deed → Prop
  | .fetch height reply => block height reply
  | .search page reply => search page reply
  | .call _ _ => True

theorem Happened.answered {source : Source σ} {s : Store κ} {deadline : Deadline} {deeds : List Deed}
    {block : Height → Except NodeError Block → Prop} {search : SearchPage → SearchReply → Prop}
    {I : σ → Prop} {a b : σ × κ} (h : Happened source s deadline deeds a b)
    (hsource : source.Answers deadline block search I) (ha : I a.1) :
    (∀ d ∈ deeds, d.Answered block search) ∧ I b.1 := by
  induction h with
  | nil => exact ⟨List.forall_mem_nil _, ha⟩
  | @fetch height world k deeds state _ ih =>
    obtain ⟨hreply, hworld⟩ := hsource.block height world ha
    exact (ih hworld).imp_left fun hdeeds => List.forall_mem_cons.2 ⟨hreply, hdeeds⟩
  | @search page world k deeds state _ ih =>
    obtain ⟨hreply, hworld⟩ := hsource.search page world ha
    exact (ih hworld).imp_left fun hdeeds => List.forall_mem_cons.2 ⟨hreply, hdeeds⟩
  | call _ ih => exact (ih ha).imp_left fun hdeeds => List.forall_mem_cons.2 ⟨trivial, hdeeds⟩

/-- Searches that all succeed find what their pages hold. -/
theorem raws_of_pages {deeds : List Deed} (hok : ∀ d ∈ deeds, d.error? = none)
    {held : SearchPage → List RawTransaction}
    (hheld : ∀ page raws, .search page (.ok raws) ∈ deeds → raws = held page) :
    deeds.flatMap Deed.raws = (deeds.filterMap Deed.page?).flatMap held := by
  induction deeds with
  | nil => rfl
  | cons d deeds ih =>
    obtain ⟨hd, hok⟩ := List.forall_mem_cons.1 hok
    have hrest := ih hok fun page raws h => hheld page raws (List.mem_cons_of_mem _ h)
    rw [List.flatMap_cons, hrest]
    cases d with
    | fetch height reply | call c outcome => rfl
    | search page reply =>
      cases reply with
      | error e => cases hd
      | ok raws =>
        have hpage := hheld page raws List.mem_cons_self
        exact congrArg (· ++ (deeds.filterMap Deed.page?).flatMap held) hpage

/-! ## Ledgers -/

/-- What a node knows: blocks, and the transactions of each height. -/
structure Ledger where
  blocks : List Block
  transactions : Height → List RawTransaction
  counted : ∀ b ∈ blocks, (transactions b.height).length = b.transactionCount.toNat

namespace Ledger

variable (c : Ledger)

/-- A source gives the block of a height, and any block for height zero; for a page it gives what is on
it. It may always fail. -/
def Known (source : Source σ) (deadline : Deadline) (I : σ → Prop) : Prop :=
  source.Answers deadline
    (fun height reply => ∀ b, reply = .ok b → b ∈ c.blocks ∧ (height ≠ 0 → b.height = height))
    (fun page reply => page.perPage = 100 → 1 ≤ page.page →
      ∀ raws, reply = .ok raws → raws = page.slice (c.transactions page.height)) I

/-- The transactions of a height that can be decoded in a block. -/
def decodable (d : Decoder) (b : Block) (height : Height) : List Transaction :=
  (c.transactions height).filterMap (Pipeline.accepted (d.decodeIn b))

/-- The transactions of a block were searched for and all of them found. -/
structure Stored (d : Decoder) (deeds : List Deed) (b : Block) (txs : List Transaction) : Prop where
  searched : ∀ page ∈ deeds.filterMap Deed.page?, page.height = b.height
  fetched : deeds.flatMap Deed.raws = c.transactions b.height
  decoded : txs = c.decodable d b b.height

end Ledger

/-- So many pages hold all transactions of a block, if they are those of its height or it has none. -/
theorem Ledger.take_eq (c : Ledger) {b : Block} {height : Height} (hb : b ∈ c.blocks)
    (h : b.height = height ∨ b.transactionCount = 0) :
    (c.transactions height).take (100 * ((b.transactionCount.toNat + 99) / 100)) =
      c.transactions b.height := by
  have hcounted := c.counted b hb
  rcases h with rfl | hnone
  · exact List.take_of_length_le (by omega)
  · rw [hnone] at hcounted ⊢
    rw [List.eq_nil_of_length_eq_zero hcounted]
    rfl

theorem exists_mem_ofHeight (height : Height) {count : UInt64} (h : count ≠ 0) :
    ∃ page, page ∈ SearchPage.ofHeight height count := by
  have hpos : 0 < count.toNat := Nat.pos_of_ne_zero fun hzero => h (UInt64.toNat_inj.1 hzero)
  refine ⟨_, List.mem_map.2 ⟨0, List.mem_range.2 ?_, rfl⟩⟩
  show 0 < (count.toNat + (100 - 1)) / 100
  omega

/-- **What is searched for is the height that was asked for.** Whatever a source that knows a ledger
leads to, if it is a result, then its block is confirmed, and only pages of the height that was asked
for were searched. So the transactions of the block are stored just if that is its height, or it
has none; any height but zero is confirmed with all of them, as long as its pages can be numbered. -/
theorem confirmed_transactions {x : Indexer σ} {s : Store κ} {height : Height} {w w' : Work σ κ}
    {b : Block} {txs : List Transaction} {c : Ledger} {I : σ → Prop}
    (hknown : c.Known x.source (some (Clocked.now w.world + x.timeout)) I) (hworld : I w.world)
    (hok : ending (x.storeHeight (some s) height) w = (.ok (b, txs), w')) :
    ∃ deeds, Performs x.source s (some (Clocked.now w.world + x.timeout))
        (x.storeHeight (some s) height) (x.storeHeight (some s.noting) height) w deeds
        (.ok (b, txs)) w' ∧
      .call (.confirm [b]) (.ok ()) ∈ deeds ∧
      b ∈ c.blocks ∧ (height ≠ 0 → b.height = height) ∧
      deeds.filterMap Deed.page? = SearchPage.ofHeight height b.transactionCount ∧
      (c.Stored x.decoder deeds b txs → b.height = height ∨ b.transactionCount = 0) ∧
      (b.transactionCount.toNat ≤ 100 * (UInt32.size - 1) →
        deeds.flatMap Deed.raws =
            (c.transactions height).take (100 * ((b.transactionCount.toNat + 99) / 100)) ∧
          (b.height = height ∨ b.transactionCount = 0 → c.Stored x.decoder deeds b txs)) := by
  obtain ⟨deeds, result, u, hperforms, hended⟩ := x.storeHeight_performs s height w
  obtain ⟨rfl, rfl⟩ := Prod.mk.inj (hperforms.ending_eq.symm.trans hok)
  have horderly := hended.orderly
  have hpages := horderly.pages_eq
  obtain ⟨hfetch, htxs, -⟩ := horderly.ok b txs rfl
  obtain ⟨hanswered, -⟩ := hperforms.happened.answered hknown hworld
  obtain ⟨hblock, hheight⟩ := hanswered _ hfetch b rfl
  refine ⟨deeds, hperforms, horderly.confirmed, hblock, hheight, hpages, fun hstored => ?_,
    fun hbounded => ?_⟩
  · by_cases hnone : b.transactionCount = 0
    · exact .inr hnone
    · -- some page was searched, and it names the height that was asked for
      obtain ⟨page, hpage⟩ := exists_mem_ofHeight height hnone
      rw [← hstored.searched page (hpages ▸ hpage)]
      exact .inl (Chain.mem_ofHeight hpage).1
  · have hheld : ∀ page raws, .search page (.ok raws) ∈ deeds →
        raws = page.slice (c.transactions height) := by
      intro page raws hsearch
      have hpage : page ∈ deeds.filterMap Deed.page? := List.mem_filterMap.2 ⟨_, hsearch, rfl⟩
      rw [hpages] at hpage
      obtain ⟨hnamed, hsize, hone⟩ := Chain.mem_ofHeight hpage
      rw [← hnamed]
      exact hanswered _ hsearch hsize (hone hbounded) raws rfl
    -- everything succeeded, so each page was found as the ledger has it
    have hraws : deeds.flatMap Deed.raws =
        (c.transactions height).take (100 * ((b.transactionCount.toNat + 99) / 100)) := by
      rw [raws_of_pages (horderly.ok_iff.1 ⟨_, rfl⟩) hheld, hpages, Chain.slices_take hbounded]
    refine ⟨hraws, fun hsame => ?_⟩
    have hfetched := c.take_eq hblock hsame
    rw [← hraws] at hfetched
    refine ⟨fun page hpage => ?_, hfetched, by rw [htxs, Indexer.found, hfetched]; rfl⟩
    rw [hpages] at hpage
    rcases hsame with rfl | hnone
    · exact (Chain.mem_ofHeight hpage).1
    · rw [hnone] at hpage
      exact absurd hpage List.not_mem_nil

/-! ## A ledger with one block -/

/-- A source that replies as told to questions for one block. -/
def Source.withBlock (source : Source σ) (block : Height → Except NodeError Block) : Source σ :=
  { source with block := fun height _ => .done (block height) }

namespace OneBlock

def block : Block := { height := 4, transactionCount := 1 }

def raw : RawTransaction :=
  { hash := "T4", height := "4", execution := { log := "[]", gasWanted := "1", gasUsed := "1" } }

def ledger : Ledger where
  blocks := [block]
  transactions height := if height = 4 then [raw] else []
  counted := by decide

def indexer : Indexer Stillness where
  source := (Source.ofAnswers (fun _ => .ok []) fun page =>
    .ok (page.slice (ledger.transactions page.height))).withBlock fun height =>
      if height = 0 ∨ height = 4 then .ok block else .error (.unusable "no such block")

/-- The work before the block is stored. -/
def start : Work Stillness MemoryStore := { world := {}, other := {} }

def deadline : Deadline :=
  some (Clocked.now start.world + indexer.timeout)

theorem known : ledger.Known indexer.source deadline fun _ => True where
  block height world _ := by
    refine ⟨fun b hb => ?_, trivial⟩
    change (if height = 0 ∨ height = 4 then Except.ok block else _) = _ at hb
    split at hb
    · rename_i hheight
      cases hb
      exact ⟨List.mem_singleton_self block, fun hne => (hheight.resolve_left hne).symm⟩
    · cases hb
  search page world _ := ⟨fun _ _ raws hraws => by cases hraws; rfl, trivial⟩

/-- By its number the block is confirmed with its transaction. -/
theorem confirmed_transactions_four :
    ledger.Known indexer.source deadline (fun _ => True) ∧
      ∃ txs w' deeds,
        ending (indexer.storeHeight (some MemoryStore.store) 4) start = (.ok (block, txs), w') ∧
        .call (.confirm [block]) (.ok ()) ∈ deeds ∧
        ledger.Stored indexer.decoder deeds block txs := by
  rcases hending : ending (indexer.storeHeight (some MemoryStore.store) 4) start with ⟨result, w'⟩
  have hblock : result.toOption.map Prod.fst = some block := by
    have hfirst : (ending (indexer.storeHeight (some MemoryStore.store) 4) start).1.toOption.map
        Prod.fst = some block := by decide +kernel
    rwa [hending] at hfirst
  cases result with
  | error e => cases hblock
  | ok v =>
    obtain ⟨b, txs⟩ := v
    cases hblock
    obtain ⟨deeds, -, hconfirmed, -, -, -, -, hall⟩ := confirmed_transactions known trivial hending
    exact ⟨known, txs, w', deeds, rfl, hconfirmed, (hall (by decide)).2 (.inl rfl)⟩

/-- As the newest one the block is confirmed without its transaction: no page of its height was
searched for. -/
theorem newest_unfetched :
    ledger.Known indexer.source deadline (fun _ => True) ∧
      ledger.decodable indexer.decoder block 4 ≠ [] ∧
      ∃ deeds w', Performs indexer.source MemoryStore.store deadline
          (indexer.storeHeight (some MemoryStore.store) 0)
          (indexer.storeHeight (some MemoryStore.store.noting) 0) start deeds (.ok (block, [])) w' ∧
        w'.other.confirmed = [4] ∧
        deeds.filterMap Deed.page? = [{ height := 0, page := 1, perPage := 100 }] ∧
        ¬ledger.Stored indexer.decoder deeds block [] := by
  refine ⟨known, by decide +kernel, ?_⟩
  obtain ⟨deeds, result, w', hperforms, hended⟩ :=
    indexer.storeHeight_performs MemoryStore.store 0 start
  -- the run itself is evaluated; its deeds are then fixed by its result
  have hending : ending (indexer.storeHeight (some MemoryStore.store) 0) start =
      (.ok (block, []), { start with other := { blocks := [block], confirmed := [4] } }) := rfl
  obtain ⟨rfl, rfl⟩ := Prod.mk.inj (hperforms.ending_eq.symm.trans hending)
  have hpages : deeds.filterMap Deed.page? = [{ height := 0, page := 1, perPage := 100 }] :=
    hended.orderly.pages_eq
  refine ⟨deeds, _, hperforms, rfl, hpages, fun hstored => ?_⟩
  have hsearched := hstored.searched
  rw [hpages] at hsearched
  exact absurd (hsearched _ List.mem_cons_self) (by decide)

end OneBlock

end ChainIndex
