import ChainIndex.Proofs.ConfirmedHeights

/-!
# Both ways to fetch a height agree

A height can be stored on its own, or delivered as a range of one height. The first goes page by page
and decodes everything in the block that it has fetched; the second does many things at the same time
and looks up the block of each transaction. With a source that answers for a fixed chain
(`Chain.Served`) they come to the same:

* `stored_of_served`: what is stored of a height.
* `fetch_paths_agree`: **the delivery of the height is that block with these transactions**.
-/

namespace ChainIndex

open Indexer (closing)
open Indexer.Storing (ending)

variable {σ κ : Type} [Clocked σ]

/-! ## Stores that take a block -/

/-- A store does one thing after the other as it is asked. -/
def Store.Accepts (s : Store κ) : List StoreCall → κ → Prop
  | [], _ => True
  | c :: rest, k => (s.perform c k).1 = .ok () ∧ s.Accepts rest (s.perform c k).2

theorem Happened.accepted {source : Source σ} {s : Store κ} {deadline : Deadline} {deeds : List Deed}
    {a b : σ × κ} (h : Happened source s deadline deeds a b) {calls : List StoreCall}
    (hcalls : deeds.filterMap Deed.call? <+: calls) (haccepts : s.Accepts calls a.2) :
    ∀ c outcome, .call c outcome ∈ deeds → outcome = .ok () := by
  induction h generalizing calls with
  | nil => exact fun c outcome hc => absurd hc List.not_mem_nil
  | fetch _ ih | search _ ih =>
    intro c outcome hc
    exact ih hcalls haccepts c outcome ((List.mem_cons.1 hc).resolve_left nofun)
  | @call first world k deeds state _ ih =>
    cases calls with
    | nil => exact absurd (List.prefix_nil.1 hcalls) (List.cons_ne_nil _ _)
    | cons next calls =>
      obtain ⟨rfl, hrest⟩ := List.cons_prefix_cons.1 hcalls
      obtain ⟨hfirst, haccepts⟩ := haccepts
      intro c outcome hc
      rcases List.mem_cons.1 hc with hc | hc
      · cases hc
        exact hfirst
      · exact ih hrest haccepts c outcome hc

/-- A store in memory takes any block with any transactions. -/
theorem MemoryStore.accepts (b : Block) (txs : List Transaction) (m : MemoryStore) :
    store.Accepts (.blocks [b] :: closing b txs) m := by
  have hstored : ((m.putBlocks [b]).block? b.height).isSome = true :=
    Option.isSome_iff_exists.2 (block?_isSome.2 ⟨b, BlockSet.self_mem_place b _, rfl⟩)
  have hconfirm : ∀ m' : MemoryStore, m'.blocks = (m.putBlocks [b]).blocks →
      (m'.confirm [b]).1 = .ok () := by
    intro m' hblocks
    rw [confirm, block?, hblocks, ← block?, if_pos hstored]
    rfl
  refine ⟨rfl, ?_⟩
  cases txs with
  | nil => exact ⟨hconfirm _ rfl, trivial⟩
  | cons t txs => exact ⟨rfl, hconfirm _ rfl, trivial⟩

/-! ## Sources that answer for a chain -/

namespace Chain

/-- Every question about a height of the chain is answered, and with the same block each time. -/
structure Served (c : Chain) (source : Source σ) (I : σ → Prop) : Prop where
  follows : ∀ deadline, source.Follows deadline c.behavior I
  block : ∀ height deadline, (source.block height deadline).Always I fun reply =>
    ∀ b ∈ c.blocks, b.height = height → 1 ≤ height → reply = .ok b

theorem Served.answers {c : Chain} {source : Source σ} {I : σ → Prop} (h : c.Served source I)
    (deadline : Deadline) :
    source.Answers deadline
      (fun height reply => ∀ b ∈ c.blocks, b.height = height → 1 ≤ height → reply = .ok b)
      c.behavior.search I where
  block height _ hworld := (h.block height deadline).run (h.follows deadline).timeless hworld
  search page _ hworld := ((h.follows deadline).search page).run (h.follows deadline).timeless hworld

/-- A range of one height holds its block. -/
theorem within_single (c : Chain) {b : Block} (hb : b ∈ c.blocks) :
    c.within { first := b.height, last := b.height } = [b] := by
  have hnodup : (c.within { first := b.height, last := b.height }).Nodup :=
    (List.Nodup.of_map _ c.heights).filter _
  refine List.Perm.eq_singleton ((List.perm_ext_iff_of_nodup hnodup (List.nodup_singleton b)).2 ?_)
  intro x
  rw [c.mem_within, List.mem_singleton]
  constructor
  · rintro ⟨hx, hfirst, hlast⟩
    exact c.eq_of_height hx hb (UInt64.le_antisymm hlast hfirst)
  · rintro rfl
    exact ⟨hb, UInt64.le_refl _, UInt64.le_refl _⟩

end Chain

/-- **What is stored of a height**: its block with all transactions that can be decoded. -/
theorem stored_of_served {x : Indexer σ} {s : Store κ} {c : Chain} {I : σ → Prop} {b : Block}
    {w : Work σ κ} (hserved : c.Served x.source I) (hworld : I w.world) (hb : b ∈ c.blocks)
    (hheight : 1 ≤ b.height)
    (haccepts : ∀ txs, s.Accepts (.blocks [b] :: closing b txs) w.other) :
    ∃ w', ending (x.storeHeight (some s) b.height) w = (.ok (b, c.decodable x.decoder b), w') := by
  obtain ⟨deeds, result, w', hperforms, hended⟩ := x.storeHeight_performs s b.height w
  have horderly := hended.orderly
  obtain ⟨hanswered, -⟩ := hperforms.happened.answered (hserved.answers _) hworld
  obtain ⟨reply, rest, hdeeds, honce⟩ := horderly.fetch
  have hfetch : ∀ reply, .fetch b.height reply ∈ deeds → reply = .ok b := fun reply hreply =>
    hanswered _ hreply b hb rfl hheight
  have hfetched : .fetch b.height (.ok b) ∈ deeds := by
    have hfirst : .fetch b.height reply ∈ deeds := hdeeds ▸ List.mem_cons_self
    rwa [hfetch reply hfirst] at hfirst
  have hsearch : ∀ page reply, .search page reply ∈ deeds → reply = .ok (c.slice page) := by
    intro page reply hreply
    have hpage := (horderly.pages_prefix b hfetched).subset (List.mem_filterMap.2 ⟨_, hreply, rfl⟩)
    obtain ⟨-, hsize, hone⟩ := Chain.mem_ofHeight hpage
    exact hanswered _ hreply hsize (hone (Nat.le_of_lt (c.bounded b hb)))
  -- neither the source nor the store fails, so the plan is carried out to its end
  have hcall := hperforms.happened.accepted (horderly.calls_prefix b hfetched) (haccepts _)
  have hall : ∀ d ∈ deeds, d.error? = none := by
    intro d hd
    cases d with
    | fetch height reply' =>
      have hsame := (List.mem_cons.1 (hdeeds ▸ hd)).resolve_right (honce height reply')
      cases hsame
      rw [hfetch _ hd]
      rfl
    | search page reply => rw [hsearch page reply hd]; rfl
    | call call outcome => rw [hcall call outcome hd]; rfl
  obtain ⟨⟨b', txs⟩, rfl⟩ := horderly.ok_iff.2 hall
  obtain ⟨hb', htxs, -⟩ := horderly.ok b' txs rfl
  cases hfetch _ hb'
  refine ⟨w', hperforms.ending_eq.trans ?_⟩
  rw [htxs, Indexer.found, raws_of_pages hall fun page raws h => Except.ok.inj (hsearch page _ h),
    horderly.pages_eq, c.ofHeight_slices hb]
  rfl

/-- **Both ways to fetch a height agree.** Whatever the configuration, and however replies, searches and
the decoder are interleaved: the delivery of a range of one height always ends, and ends well with the
block that is stored and, in some order, the transactions stored with it. So does whatever a fetcher
does. -/
theorem fetch_paths_agree {x : Indexer σ} {s : Store κ} {c : Chain} {I : σ → Prop} {b : Block}
    {w : Work σ κ} (hserved : c.Served x.source I) (hworld : I w.world) (hb : b ∈ c.blocks)
    (hheight : 1 ≤ b.height)
    (haccepts : ∀ txs, s.Accepts (.blocks [b] :: closing b txs) w.other) :
    ∃ txs w', ending (x.storeHeight (some s) b.height) w = (.ok (b, txs), w') ∧
      ∀ config : RangeConfig,
        let f : RangeFetcher σ := { x.fetcher with config }
        let range : HeightRange := { first := b.height, last := b.height }
        let payloads : List Payload := .block b :: txs.map .transaction
        Ends (Transfer.Step f c.behavior)
            (fun t => t.Over ∧ t.stage = .ended (.ok ()) ∧ t.pipeline.delivered.Perm payloads)
            (Transfer.start f (f.segments range)) ∧
          ∀ deadline world, I world → (f.fetch range deadline world).1.outcome = .ok () ∧
            (f.fetch range deadline world).1.payloads.Perm payloads := by
  obtain ⟨w', hending⟩ := stored_of_served hserved hworld hb hheight haccepts
  refine ⟨_, w', hending, ?_⟩
  intro config f range payloads
  have hpayloads : ∀ sent, c.Exact f.decoder range sent → sent.Perm payloads := by
    intro sent hexact
    have hperm := hexact.payloads
    rw [c.within_single hb, List.flatMap_singleton] at hperm
    exact hperm
  constructor
  · -- any schedule ends, and an end that is reached is a good one
    refine (Transfer.ends_of_kept c.behavior_total (Transfer.kept_start f _)).imp ?_
    rintro t ⟨hover, hsteps⟩
    obtain ⟨outcome, hended⟩ := hover.ended
    obtain ⟨rfl, hexact⟩ := Chain.ended_well hheight rfl hsteps hended
    exact ⟨hover, hended, hpayloads _ (hover.delivered ▸ hexact)⟩
  · -- a fetcher follows one of these schedules
    intro deadline world hworld
    obtain ⟨t, hsteps, -, hended, hsent⟩ :=
      f.fetch_steps (hserved.follows deadline) world hworld range
    obtain ⟨houtcome, hexact⟩ := Chain.ended_well hheight rfl hsteps hended
    exact ⟨houtcome, hpayloads _ (hsent ▸ hexact)⟩

namespace OneBlock

/-- The block and its transaction as a chain. -/
def chain : Chain where
  blocks := [block]
  transactions := ledger.transactions
  heights := by decide
  counted := by decide
  bounded := by decide
  numbered := by decide

def served : Indexer Stillness where
  source := chain.source.withBlock fun height =>
    if height = 4 then .ok block else .error (.unusable "no such block")

theorem chain_served : chain.Served served.source fun _ => True where
  follows deadline :=
    ⟨(chain.follows_source deadline).timeless, (chain.follows_source deadline).blocks,
      (chain.follows_source deadline).search⟩
  block height deadline b hb hheight _ := by
    cases List.mem_singleton.1 hb
    exact if_pos hheight.symm

/-- The block and its transaction are stored and delivered alike. -/
theorem fetch_paths_agree_four :
    chain.Served served.source (fun _ => True) ∧ block ∈ chain.blocks ∧ 1 ≤ block.height ∧
      (∀ txs, MemoryStore.store.Accepts (.blocks [block] :: closing block txs) start.other) ∧
      ∃ txs w', ending (served.storeHeight (some MemoryStore.store) 4) start =
          (.ok (block, txs), w') ∧
        ∀ config : RangeConfig,
          (RangeFetcher.fetch { served.fetcher with config } { first := 4, last := 4 } none
            {}).1.payloads.Perm (.block block :: txs.map .transaction) := by
  have hmem : block ∈ chain.blocks := List.mem_singleton_self block
  have haccepts txs := MemoryStore.accepts block txs start.other
  obtain ⟨txs, w', hending, hagree⟩ :=
    fetch_paths_agree (w := start) chain_served trivial hmem (by decide) haccepts
  exact ⟨chain_served, hmem, by decide, haccepts, txs, w', hending, fun config =>
    ((hagree config).2 none {} trivial).2⟩

end OneBlock

end ChainIndex
