import ChainIndex.Proofs.BlockSets
import ChainIndex.Proofs.Deeds

/-!
# A height is confirmed after its commits

A block is fetched and put into the store, its transactions are searched for page by page and put there
too, and then the height is confirmed. A failure on the way is the last thing that happens.

* `storeHeight_performs`: the deeds for a height, and what comes of them.
* `Orderly`: their order, and what their result says.
* `MemoryStore.Reachable.sound`: what a store in memory has confirmed is stored.
* `confirmed_after_commits`: **a height is confirmed only after everything of it was stored**.
-/

namespace ChainIndex

variable {σ κ : Type} [Clocked σ]

namespace Indexer

section Decoding

variable {σ κ : Type} (x : Indexer σ)

theorem decodeAll_ending (decoder : RawTransaction → Except DecodeError (Measured Transaction))
    (raws : List RawTransaction) : ∃ metrics : List Metric, ∀ {κ : Type} (w : Work σ κ),
      (decodeAll decoder raws : Storing σ κ (List Transaction)).ending w =
        (.ok (raws.filterMap (Pipeline.accepted decoder)),
          { w with journal := metrics ++ w.journal }) := by
  induction raws with
  | nil => exact ⟨[], fun w => rfl⟩
  | cons raw rest ih =>
    obtain ⟨metrics, ih⟩ := ih
    cases hraw : decoder raw with
    | error e =>
      refine ⟨metrics, fun w => ?_⟩
      rw [List.filterMap_cons_none (Pipeline.accepted_error hraw), ← ih w, decodeAll, hraw]
    | ok t =>
      refine ⟨metrics ++ t.metrics, fun w => ?_⟩
      have hnoted : (modify fun w => { w with journal := t.metrics ++ w.journal } :
          Storing σ _ PUnit).ending w = (.ok ⟨⟩, { w with journal := t.metrics ++ w.journal }) := rfl
      rw [List.filterMap_cons_some (Pipeline.accepted_ok hraw), decodeAll, hraw, List.append_assoc,
        Storing.ending_bind_ok hnoted, Storing.ending_bind_ok (ih _)]
      rfl

/-- The transactions among the deeds, as they are decoded in a block. -/
def found (b : Block) (deeds : List Deed) : List Transaction :=
  (deeds.flatMap Deed.raws).filterMap (Pipeline.accepted (x.decoder.decodeIn b))

theorem found_append (b : Block) (deeds others : List Deed) :
    x.found b (deeds ++ others) = x.found b deeds ++ x.found b others := by
  rw [found, List.flatMap_append, List.filterMap_append]
  rfl

theorem found_search (b : Block) (page : SearchPage) (raws : List RawTransaction) :
    x.found b [.search page (.ok raws)] =
      raws.filterMap (Pipeline.accepted (x.decoder.decodeIn b)) := by
  rw [found, List.flatMap_singleton]
  rfl

end Decoding

/-- What a store is asked for once the transactions of a block are known. -/
def closing (b : Block) (txs : List Transaction) : List StoreCall :=
  (if txs.isEmpty then [] else [StoreCall.transactions txs]) ++ [.confirm [b]]

/-- What is left to do once a block is there. -/
def plan (height : Height) (b : Block) (txs : List Transaction) : List Act :=
  .call (.blocks [b]) :: ((SearchPage.ofHeight height b.transactionCount).map .search ++
    (closing b txs).map .call)

/-- The deeds for a height, and their result. -/
inductive Ended (x : Indexer σ) (height : Height) :
    List Deed → Except WorkerError (Block × List Transaction) → Prop where
  | unfetched (e : NodeError) : Ended x height [.fetch height (.error e)] (.error (.node e))
  | fetched {b : Block} {deeds : List Deed} {result : Except WorkerError (Block × List Transaction)}
    (h : Storing.Concluded (plan height b (x.found b deeds)) (fun deeds => (b, x.found b deeds)) deeds
      result) :
    Ended x height (.fetch height (.ok b) :: deeds) result

open Storing

variable (x : Indexer σ) {s : Store κ} {deadline : Deadline}

theorem does_decodeAll (decoder : RawTransaction → Except DecodeError (Measured Transaction))
    (raws : List RawTransaction) :
    Does x.source s deadline (decodeAll decoder raws) (decodeAll decoder raws) fun deeds result =>
      deeds = [] ∧ result = .ok (raws.filterMap (Pipeline.accepted decoder)) := by
  obtain ⟨metrics, hending⟩ := decodeAll_ending decoder raws
  refine fun w => ⟨[], _, _, ⟨hending w, .nil, fun notes => ?_⟩, rfl, rfl⟩
  rw [hending, List.filterMap_nil, List.append_nil]
  rfl

theorem does_searchPages (b : Block) (pages : List SearchPage) :
    Does x.source s deadline (x.searchPages b deadline pages) (x.searchPages b deadline pages)
      (Concluded (pages.map .search) (x.found b)) := by
  induction pages with
  | nil => exact does_pure ⟨.done, fun txs h => by cases h; rfl⟩
  | cons page rest ih =>
    refine (does_search page).bind ?_ ?_
    · rintro _ raws ⟨_ | _, rfl, ⟨⟩⟩
      refine (x.does_decodeAll (x.decoder.decodeIn b) raws).bind ?_ (by rintro _ e ⟨-, ⟨⟩⟩)
      rintro _ txs ⟨rfl, ⟨⟩⟩
      refine ih.bind ?_ ?_
      · rintro deeds txs ⟨hdeeds, htxs⟩
        refine does_pure ⟨?_, ?_⟩
        · rw [List.append_nil]
          exact .next (d := .search page (.ok raws)) rfl hdeeds
        · rintro _ ⟨⟩
          rw [htxs txs rfl, List.append_nil, List.nil_append, found_append, found_search]
      · rintro deeds e ⟨hdeeds, -⟩
        exact concluded_error (.next (d := .search page (.ok raws)) rfl hdeeds)
    · rintro _ e ⟨_ | _, rfl, ⟨⟩⟩
      exact concluded_error (.failed (d := .search page (.error _)) rfl _)

omit [Clocked σ] in
/-- Calls find no transactions. -/
theorem found_calls {b : Block} {c : List StoreCall} {deeds : List Deed}
    {failure? : Option WorkerError} (h : Pursued (c.map .call) deeds failure?) :
    x.found b deeds = [] := by
  have hnone : deeds.flatMap Deed.raws = [] := by
    refine List.flatMap_eq_nil_iff.2 fun d hd => ?_
    have hmem := h.acts_prefix.subset (List.mem_map_of_mem hd)
    obtain ⟨c, -, hc⟩ := List.mem_map.1 hmem
    cases d with
    | search page reply => cases hc
    | fetch height reply | call c outcome => rfl
  rw [found, hnone, List.filterMap_nil]

/-- What is done once the deadline is known. -/
def storeBy (s : Store κ) (height : Height) (deadline : Deadline) :
    Storing σ κ (Block × List Transaction) := do
  let b ← ask (x.source.block height deadline)
  keep (s.putBlocks [b])
  let txs ← x.searchPages b deadline (SearchPage.ofHeight height b.transactionCount)
  if !txs.isEmpty then keep (s.putTransactions txs)
  keep (s.confirm [b])
  return (b, txs)

theorem storeHeight_ending (s : Store κ) (height : Height) (w : Work σ κ) :
    (x.storeHeight (some s) height).ending w =
      (x.storeBy s height (some (Clocked.now w.world + x.timeout))).ending w := by
  unfold storeHeight
  exact ending_bind_ok rfl

theorem does_closing (b : Block) (txs : List Transaction) :
    Does x.source s deadline
      (do
        if !txs.isEmpty then keep (s.putTransactions txs)
        keep (s.confirm [b])
        return (b, txs))
      (do
        if !txs.isEmpty then keep (s.noting.putTransactions txs)
        keep (s.noting.confirm [b])
        return (b, txs))
      (Concluded ((closing b txs).map .call) fun _ => (b, txs)) := by
  have hconfirm : Does x.source s deadline (do keep (s.confirm [b]); return (b, txs))
      (do keep (s.noting.confirm [b]); return (b, txs))
      (Concluded [.call (.confirm [b])] fun _ => (b, txs)) :=
    (does_call (.confirm [b])).seq (does_pure ⟨.done, by rintro _ ⟨⟩; rfl⟩)
  unfold closing
  cases txs with
  | nil => exact hconfirm
  | cons t rest => exact (does_call (.transactions (t :: rest))).seq hconfirm

theorem does_fetched (height : Height) (b : Block) :
    Does x.source s deadline
      (do
        keep (s.putBlocks [b])
        let txs ← x.searchPages b deadline (SearchPage.ofHeight height b.transactionCount)
        if !txs.isEmpty then keep (s.putTransactions txs)
        keep (s.confirm [b])
        return (b, txs))
      (do
        keep (s.noting.putBlocks [b])
        let txs ← x.searchPages b deadline (SearchPage.ofHeight height b.transactionCount)
        if !txs.isEmpty then keep (s.noting.putTransactions txs)
        keep (s.noting.confirm [b])
        return (b, txs))
      (fun deeds =>
        Concluded (plan height b (x.found b deeds)) (fun deeds => (b, x.found b deeds)) deeds) := by
  refine (does_call (.blocks [b])).bind ?_ ?_
  · -- what the plan closes with depends on what its searches find
    rintro first _ ⟨hfirst, -⟩
    have hnone : x.found b first = [] := x.found_calls (c := [.blocks [b]]) hfirst
    refine (x.does_searchPages b _).bind ?_ ?_
    · rintro searches txs ⟨hsearches, htxs⟩
      refine (x.does_closing b txs).imp fun calls result ⟨hcalls, hresult⟩ => ?_
      have hfound : x.found b (first ++ (searches ++ calls)) = txs := by
        rw [found_append, found_append, hnone, x.found_calls hcalls, htxs txs rfl, List.append_nil,
          List.nil_append]
      rw [Concluded, hfound]
      exact ⟨hfirst.append (hsearches.append hcalls), hresult⟩
    · rintro searches e ⟨hsearches, -⟩
      exact concluded_error (hfirst.append (hsearches.append_failed _))
  · rintro first e ⟨hfirst, -⟩
    exact concluded_error (hfirst.append_failed _)

theorem does_storeBy (height : Height) :
    Does x.source s deadline (x.storeBy s height deadline) (x.storeBy s.noting height deadline)
      (x.Ended height) := by
  refine (does_fetch height).bind ?_ ?_
  · rintro _ b ⟨_ | _, rfl, ⟨⟩⟩
    exact (x.does_fetched height b).imp fun deeds result h => .fetched h
  · rintro _ e ⟨_ | _, rfl, ⟨⟩⟩
    exact .unfetched _

/-- **The deeds of a height, and what comes of them**, for every store, with notes and without. -/
theorem storeHeight_performs (s : Store κ) (height : Height) (w : Work σ κ) :
    ∃ deeds result w', Performs x.source s (some (Clocked.now w.world + x.timeout))
      (x.storeHeight (some s) height) (x.storeHeight (some s.noting) height) w deeds result w' ∧
      x.Ended height deeds result := by
  obtain ⟨deeds, result, w', ⟨hending, hhappened, hnoted⟩, hended⟩ := x.does_storeBy height w
  refine ⟨deeds, result, w', ⟨?_, hhappened, fun notes => ?_⟩, hended⟩
  · rw [storeHeight_ending, hending]
  · rw [storeHeight_ending]
    exact hnoted notes

/-! ## What storing a height guarantees -/

omit [Clocked σ] in
theorem plan_calls (height : Height) (b : Block) (txs : List Transaction) :
    (plan height b txs).filterMap Act.call? = .blocks [b] :: closing b txs := by
  simp [plan, Act.call?, List.filterMap_map, Function.comp_def]

omit [Clocked σ] in
theorem plan_pages (height : Height) (b : Block) (txs : List Transaction) :
    (plan height b txs).filterMap Act.page? = SearchPage.ofHeight height b.transactionCount := by
  simp [plan, Act.page?, List.filterMap_cons, List.filterMap_map, Function.comp_def]

omit [Clocked σ] in
/-- Once a call follows on searches, all of them are done. -/
theorem pages_of_call {pages : List SearchPage} {calls : List StoreCall} {acts : List Act}
    {c : StoreCall} (h : acts ++ [.call c] <+: pages.map .search ++ calls.map .call) :
    acts.filterMap Act.page? = pages := by
  induction pages generalizing acts with
  | nil =>
    refine List.filterMap_eq_nil_iff.2 fun a ha => ?_
    obtain ⟨c, -, rfl⟩ := List.mem_map.1 (h.subset (List.mem_append_left _ ha))
    rfl
  | cons page rest ih =>
    cases acts with
    | nil => exact absurd (List.cons_prefix_cons.1 h).1 nofun
    | cons a acts =>
      obtain ⟨rfl, hrest⟩ := List.cons_prefix_cons.1 h
      exact congrArg (page :: ·) (ih hrest)

omit [Clocked σ] in
theorem pages_before {height : Height} {b : Block} {txs : List Transaction} {c : StoreCall}
    {outcome : Except StoreError Unit} {before after : List Deed}
    (h : (before ++ .call c outcome :: after).map Deed.act <+: plan height b txs)
    (hcalls : before.filterMap Deed.call? ≠ []) :
    before.filterMap Deed.page? = SearchPage.ofHeight height b.transactionCount := by
  cases before with
  | nil => exact absurd rfl hcalls
  | cons d before =>
    -- the first call is behind, so the next one follows on the searches
    rw [List.cons_append, List.map_cons, List.map_append, List.map_cons, plan] at h
    obtain ⟨hd, h⟩ := List.cons_prefix_cons.1 h
    have hd : d.page? = none := congrArg Act.page? hd
    have hupto := (List.prefix_append (before.map Deed.act ++ [.call c]) (after.map Deed.act)).trans
      (List.append_assoc _ [_] _ ▸ h)
    have hsearches := pages_of_call hupto
    rw [List.filterMap_map] at hsearches
    rw [List.filterMap_cons_none hd]
    exact hsearches

/-- The order in which a height is stored, and what its result says. -/
structure Orderly (height : Height) (deeds : List Deed)
    (result : Except WorkerError (Block × List Transaction)) : Prop where
  /-- First the block is fetched, and this is done once. -/
  fetch : ∃ reply rest, deeds = .fetch height reply :: rest ∧ ∀ h r, .fetch h r ∉ rest
  /-- Without a block nothing is stored. -/
  calls_nil : (∀ b, .fetch height (.ok b) ∉ deeds) → deeds.filterMap Deed.call? = []
  /-- With a block the calls are these, in this order, up to some call. -/
  calls_prefix : ∀ b, .fetch height (.ok b) ∈ deeds →
    deeds.filterMap Deed.call? <+: .blocks [b] :: closing b (x.found b deeds)
  /-- The pages are searched one after the other. -/
  pages_prefix : ∀ b, .fetch height (.ok b) ∈ deeds →
    deeds.filterMap Deed.page? <+: SearchPage.ofHeight height b.transactionCount
  /-- Before a call everything succeeded; before any but the first, so did the search of every page. -/
  before_call : ∀ before c outcome after, deeds = before ++ .call c outcome :: after →
    (∀ d ∈ before, d.error? = none) ∧ (before.filterMap Deed.call? ≠ [] →
      ∃ b, .fetch height (.ok b) ∈ before ∧
        before.filterMap Deed.page? = SearchPage.ofHeight height b.transactionCount)
  /-- There is a result exactly when everything succeeded. -/
  ok_iff : (∃ v, result = .ok v) ↔ ∀ d ∈ deeds, d.error? = none
  /-- It is the block with the transactions found, and nothing was left out. -/
  ok : ∀ b txs, result = .ok (b, txs) → .fetch height (.ok b) ∈ deeds ∧ txs = x.found b deeds ∧
    deeds.map Deed.act = .fetch height :: plan height b txs
  /-- A failure is that of the last deed. -/
  error : ∀ e, result = .error e → ∃ d, deeds.getLast? = some d ∧ d.error? = some e

omit [Clocked σ] in
theorem Ended.orderly {height : Height} {deeds : List Deed}
    {result : Except WorkerError (Block × List Transaction)} (h : x.Ended height deeds result) :
    x.Orderly height deeds result := by
  cases h with
  | unfetched e =>
    exact {
      fetch := ⟨_, [], rfl, fun _ _ => List.not_mem_nil⟩
      calls_nil := fun _ => rfl
      calls_prefix := fun b hb => by simp at hb
      pages_prefix := fun b hb => by simp at hb
      before_call := fun before c outcome after h => by
        obtain ⟨-, h⟩ | ⟨_, -, h⟩ := List.cons_eq_append_iff.1 h
        · cases h
        · simp at h
      ok_iff := by simp [Deed.error?]
      ok := by rintro _ _ ⟨⟩
      error := by rintro _ ⟨⟩; exact ⟨_, rfl, rfl⟩ }
  | @fetched b rest _ h =>
    obtain ⟨hrest, hvalue⟩ := h
    have honce (h : Height) (r : Except NodeError Block) : .fetch h r ∉ rest := fun hr =>
      absurd (hrest.acts_prefix.subset (List.mem_map_of_mem hr)) (by simp [plan, Deed.act])
    have hblock {c : Block} (hc : .fetch height (.ok c) ∈ Deed.fetch height (.ok b) :: rest) :
        c = b := by
      rcases List.mem_cons.1 hc with hc | hc
      · cases hc
        rfl
      · exact absurd hc (honce _ _)
    exact {
      fetch := ⟨_, rest, rfl, honce⟩
      calls_nil := fun h => absurd List.mem_cons_self (h b)
      calls_prefix := fun c hc => by
        rw [hblock hc, ← plan_calls height]
        exact List.filterMap_map ▸ hrest.acts_prefix.filterMap Act.call?
      pages_prefix := fun c hc => by
        rw [hblock hc, ← plan_pages height b (x.found b rest)]
        exact List.filterMap_map ▸ hrest.acts_prefix.filterMap Act.page?
      before_call := fun before c outcome after h => by
        obtain ⟨-, h⟩ | ⟨before, rfl, hsplit⟩ := List.cons_eq_append_iff.1 h
        · cases h
        · refine ⟨List.forall_mem_cons.2 ⟨rfl, hrest.error?_before hsplit⟩,
            fun hcalls => ⟨b, List.mem_cons_self, ?_⟩⟩
          have hacts : (before ++ .call c outcome :: after).map Deed.act <+:
              plan height b (x.found b rest) := hsplit ▸ hrest.acts_prefix
          exact (List.filterMap_cons_none rfl).trans (pages_before hacts hcalls)
      ok_iff := by
        rw [← failure?_eq_none, hrest.none_iff, List.forall_mem_cons]
        exact (and_iff_right rfl).symm
      ok := by
        rintro c txs rfl
        cases hvalue _ rfl
        exact ⟨List.mem_cons_self, rfl, congrArg _ hrest.acts_eq⟩
      error := by
        rintro e rfl
        obtain ⟨d, hd, he⟩ := hrest.getLast?_eq
        exact ⟨d, by rw [List.getLast?_cons, hd]; rfl, he⟩ }

namespace Orderly

variable {x} {height : Height} {deeds : List Deed} {b : Block} {txs : List Transaction}

omit [Clocked σ] in
/-- What has a result has searched all pages of the height that was asked for. -/
theorem pages_eq (h : x.Orderly height deeds (.ok (b, txs))) :
    deeds.filterMap Deed.page? = SearchPage.ofHeight height b.transactionCount := by
  have hacts := (h.ok b txs rfl).2.2
  calc deeds.filterMap Deed.page?
      = (deeds.map Deed.act).filterMap Act.page? := List.filterMap_map.symm
    _ = SearchPage.ofHeight height b.transactionCount := by
      rw [hacts, List.filterMap_cons_none rfl, plan_pages]

omit [Clocked σ] in
/-- What has a result has confirmed the block that came. -/
theorem confirmed (h : x.Orderly height deeds (.ok (b, txs))) :
    .call (.confirm [b]) (.ok ()) ∈ deeds := by
  have hacts := (h.ok b txs rfl).2.2
  have hlast : .call (.confirm [b]) ∈ deeds.map Deed.act := by
    rw [hacts]
    simp [plan, closing]
  obtain ⟨d, hd, hact⟩ := List.mem_map.1 hlast
  have hnone := h.ok_iff.1 ⟨_, rfl⟩ d hd
  cases d with
  | fetch | search => cases hact
  | call c outcome =>
    cases hact
    cases outcome with
    | error e => cases hnone
    | ok u => exact hd

end Orderly

end Indexer

/-! ## A store in memory -/

namespace MemoryStore

/-- The states of a store in memory, whatever it was asked for. -/
inductive Reachable : MemoryStore → Prop where
  | new : Reachable {}
  | call {m : MemoryStore} (c : StoreCall) (h : Reachable m) : Reachable (store.perform c m).2

/-- What is confirmed is stored. -/
def Sound (m : MemoryStore) : Prop :=
  ∀ h ∈ m.confirmed, ∃ b, m.block? h = some b

theorem block?_isSome {m : MemoryStore} {h : Height} :
    (∃ b, m.block? h = some b) ↔ ∃ b ∈ m.blocks, b.height = h := by
  simp only [block?, ← Option.isSome_iff_exists, List.find?_isSome, beq_iff_eq]

theorem mem_place {h k : Height} {hs : List Height} (hk : k ∈ place h hs) : k = h ∨ k ∈ hs := by
  induction hs with
  | nil => exact .inl (List.mem_singleton.1 hk)
  | cons x rest ih =>
    rw [place] at hk
    split at hk
    · exact .inr hk
    · split at hk
      · exact List.mem_cons.1 hk
      · rcases List.mem_cons.1 hk with rfl | hk
        · exact .inr List.mem_cons_self
        · exact (ih hk).imp_right (List.mem_cons_of_mem x)

/-- Blocks are put into a store as into a set. -/
theorem foldl_place (set : BlockSet) (bs : List Block) :
    bs.foldl (fun blocks b => BlockSet.place b blocks) set.blocks = (set.extend bs).blocks := by
  induction bs generalizing set with
  | nil => rfl
  | cons b rest ih => exact ih (set.insert b)

theorem Sound.putBlocks {m : MemoryStore} (h : m.Sound) (bs : List Block) :
    (m.putBlocks bs).Sound := by
  intro k hk
  obtain ⟨b, hb, rfl⟩ := block?_isSome.1 (h k hk)
  have hset : ∃ y ∈ (BlockSet.extend { blocks := m.blocks } bs).blocks, y.height = b.height :=
    BlockSet.exists_mem_extend_of_mem _ hb
  rw [← foldl_place] at hset
  exact block?_isSome.2 hset

theorem Sound.confirm {m : MemoryStore} (h : m.Sound) (bs : List Block) :
    (m.confirm bs).2.Sound := by
  induction bs generalizing m with
  | nil => exact h
  | cons b rest ih =>
    rw [MemoryStore.confirm]
    split
    · -- only a block that is stored is confirmed
      rename_i hb
      refine ih fun k hk => ?_
      rcases mem_place hk with rfl | hk
      · exact Option.isSome_iff_exists.1 hb
      · exact h k hk
    · exact h

/-- **What is confirmed is stored**, in every state. -/
theorem Reachable.sound {m : MemoryStore} (h : m.Reachable) : m.Sound := by
  induction h with
  | new => exact nofun
  | call c _ ih =>
    cases c with
    | blocks bs => exact ih.putBlocks bs
    | transactions ts => exact ih
    | confirm bs => exact ih.confirm bs

end MemoryStore

theorem Happened.reachable {source : Source σ} {deadline : Deadline} {deeds : List Deed}
    {a b : σ × MemoryStore} (h : Happened source MemoryStore.store deadline deeds a b)
    (ha : a.2.Reachable) : b.2.Reachable := by
  induction h with
  | nil => exact ha
  | fetch _ ih | search _ ih => exact ih ha
  | call _ ih => exact ih (ha.call _)

/-- What no other call changes, such as which heights are confirmed, lasts until one is confirmed. -/
theorem Happened.unconfirmed {source : Source σ} {s : Store κ} {deadline : Deadline}
    {deeds : List Deed} {a b : σ × κ} (h : Happened source s deadline deeds a b) {γ : Type}
    (view : κ → γ) (hblocks : ∀ bs k, view (s.putBlocks bs k).2 = view k)
    (htransactions : ∀ ts k, view (s.putTransactions ts k).2 = view k)
    (hnone : ∀ bs, .confirm bs ∉ deeds.filterMap Deed.call?) : view b.2 = view a.2 := by
  induction h with
  | nil => rfl
  | fetch _ ih | search _ ih => exact ih hnone
  | @call c world k deeds state _ ih =>
    have hrest := ih fun bs hbs => hnone bs (List.mem_cons_of_mem _ hbs)
    cases c with
    | blocks bs => exact hrest.trans (hblocks bs k)
    | transactions ts => exact hrest.trans (htransactions ts k)
    | confirm bs => exact absurd List.mem_cons_self (hnone bs)

/-- **A height is confirmed only after its commits**: the deeds for it are in order, whatever the source
and the store make of them, a store that takes notes has noted just the calls among them, and without
a call to confirm nothing happens to what only such a call changes. A store in memory has stored the
blocks of all heights that it has confirmed. -/
theorem confirmed_after_commits (x : Indexer σ) (height : Height) :
    (∀ {κ : Type} (s : Store κ) (w : Work σ κ), ∃ deeds result w',
      Indexer.Storing.Performs x.source s (some (Clocked.now w.world + x.timeout))
        (x.storeHeight (some s) height) (x.storeHeight (some s.noting) height) w deeds result w' ∧
      x.Orderly height deeds result ∧
      ∀ {γ : Type} (view : κ → γ), (∀ bs k, view (s.putBlocks bs k).2 = view k) →
        (∀ ts k, view (s.putTransactions ts k).2 = view k) →
        (∀ bs, .confirm bs ∉ deeds.filterMap Deed.call?) → view w'.other = view w.other) ∧
    (∀ w : Work σ MemoryStore, w.other.Reachable →
      (Indexer.Storing.ending (x.storeHeight (some MemoryStore.store) height) w).2.other.Reachable) ∧
    ∀ m : MemoryStore, m.Reachable → ∀ h ∈ m.confirmed, ∃ b, m.block? h = some b := by
  refine ⟨fun s w => ?_, fun w hw => ?_, fun m hm => hm.sound⟩
  · obtain ⟨deeds, result, w', hperforms, hended⟩ := x.storeHeight_performs s height w
    exact ⟨deeds, result, w', hperforms, hended.orderly, fun view hblocks htransactions hnone =>
      hperforms.happened.unconfirmed view hblocks htransactions hnone⟩
  · obtain ⟨deeds, result, w', hperforms, -⟩ := x.storeHeight_performs MemoryStore.store height w
    rw [hperforms.ending_eq]
    exact hperforms.happened.reachable hw

end ChainIndex
