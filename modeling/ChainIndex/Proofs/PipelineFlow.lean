import ChainIndex.Proofs.PipelineMoves

/-!
# What goes through a pipeline

Moves come in any order, but nothing is lost on the way, nothing is doubled, and no transaction
overtakes its block.

* `Flow`: how what was asked, found and sent so far adds up with what is still in the pipeline.
* `Flow.step`: **every move keeps the account**; `Flow.settled`: what it says in the end.

Quantities are compared under all weights (`total`), so that the order in which answers come in does
not matter; `perm_of_total` turns that into a statement about lists.
-/

namespace ChainIndex

namespace Pipeline

variable {decoder : RawTransaction → Except DecodeError (Measured Transaction)}

/-! ## Weights -/

theorem total_eq_count {α : Type} [DecidableEq α] (a : α) (xs : List α) :
    total (fun x => if x = a then 1 else 0) xs = xs.count a := by
  induction xs with
  | nil => rfl
  | cons x xs ih =>
    rw [total, ih, List.count_cons]
    by_cases h : x = a
    · simp [h, Nat.add_comm]
    · simp [h]

/-- Lists that weigh the same under all weights have the same members. -/
theorem perm_of_total {α : Type} {xs ys : List α} (h : ∀ f, total f xs = total f ys) :
    xs.Perm ys := by
  classical
  rw [List.perm_iff_count]
  intro a
  rw [← total_eq_count, ← total_eq_count]
  exact h _

/-- What weighs no more under any weight has no other members. -/
theorem mem_of_total {α : Type} {xs ys : List α} (h : ∀ f, total f xs ≤ total f ys) {a : α}
    (ha : a ∈ xs) : a ∈ ys := by
  classical
  have hle := h fun x => if x = a then 1 else 0
  rw [total_eq_count, total_eq_count] at hle
  exact List.count_pos_iff.1 (Nat.lt_of_lt_of_le (List.count_pos_iff.2 ha) hle)

/-! ## Blocks before their transactions -/

/-- The pages of the transactions of blocks. -/
def pagesOf (bs : List Block) : List SearchPage :=
  bs.flatMap fun b => SearchPage.ofHeight b.height b.transactionCount

theorem jobs_pages (bs : List Block) : (jobs bs).filterMap Job.page? = pagesOf bs := by
  induction bs with
  | nil => rfl
  | cons b bs ih =>
    have hjobs : jobs (b :: bs) = .pass b ::
        ((SearchPage.ofHeight b.height b.transactionCount).map .search ++ jobs bs) := rfl
    rw [hjobs, List.filterMap_cons_none (by rfl), List.filterMap_append, ih, List.filterMap_map]
    congr 1
    exact List.filterMap_some

theorem jobs_blocks (bs : List Block) : (jobs bs).filterMap Job.block? = bs := by
  induction bs with
  | nil => rfl
  | cons b bs ih =>
    have hjobs : jobs (b :: bs) = .pass b ::
        ((SearchPage.ofHeight b.height b.transactionCount).map .search ++ jobs bs) := rfl
    have hnone : ((SearchPage.ofHeight b.height b.transactionCount).map Job.search).filterMap
        Job.block? = [] := by
      rw [List.filterMap_map]
      exact List.filterMap_eq_nil_iff.2 fun s _ => rfl
    rw [hjobs, List.filterMap_cons_some (by rfl), List.filterMap_append, ih, hnone, List.nil_append]

/-- A search comes after the block that it belongs to. -/
theorem pass_of_search {bs : List Block} :
    ∀ {front rest : List Job}, front ++ rest = jobs bs → ∀ {s : SearchPage}, .search s ∈ front →
      ∃ b, .pass b ∈ front ∧ s ∈ SearchPage.ofHeight b.height b.transactionCount := by
  induction bs with
  | nil =>
    intro front rest h s hs
    obtain ⟨rfl, -⟩ := List.append_eq_nil_iff.1 h
    exact absurd hs List.not_mem_nil
  | cons b bs ih =>
    intro front rest h s hs
    rcases front with _ | ⟨job, front⟩
    · exact absurd hs List.not_mem_nil
    set pages := (SearchPage.ofHeight b.height b.transactionCount).map Job.search with hpages
    have hjobs : jobs (b :: bs) = .pass b :: (pages ++ jobs bs) := rfl
    rw [hjobs, List.cons_append] at h
    obtain ⟨rfl, htail⟩ := List.cons.inj h
    have hown (hs : .search s ∈ pages) :
        ∃ b', .pass b' ∈ Job.pass b :: front ∧
          s ∈ SearchPage.ofHeight b'.height b'.transactionCount := by
      obtain ⟨s', hs', heq⟩ := List.mem_map.1 hs
      cases heq
      exact ⟨b, List.mem_cons_self, hs'⟩
    have hs : .search s ∈ front := (List.mem_cons.1 hs).resolve_left nofun
    -- the front ends among the searches for this block, or later
    rcases List.append_eq_append_iff.1 htail with ⟨others, hothers, -⟩ | ⟨later, rfl, hlater⟩
    · exact hown (hothers ▸ List.mem_append_left _ hs)
    · rcases List.mem_append.1 hs with hs | hs
      · exact hown hs
      · obtain ⟨b', hb', hs'⟩ := ih hlater.symm hs
        exact ⟨b', List.mem_cons_of_mem _ (List.mem_append_right _ hb'), hs'⟩

variable (decoder) in
/-- A block that was sent, and for which a search has found a transaction. -/
def Due (found : List (SearchPage × SearchReply)) (sent : List Payload) (t : Transaction) : Prop :=
  ∃ b, .block b ∈ sent ∧ ∃ x ∈ found, x.1 ∈ SearchPage.ofHeight b.height b.transactionCount ∧
    ∃ raw ∈ x.2.toOption.getD [], accepted decoder raw = some t

theorem Due.mono {found : List (SearchPage × SearchReply)} {sent : List Payload} {t : Transaction}
    (h : Due decoder found sent t) (more : List (SearchPage × SearchReply)) :
    Due decoder (found ++ more) sent t := by
  obtain ⟨b, hb, x, hx, h⟩ := h
  exact ⟨b, hb, x, List.mem_append_left _ hx, h⟩

variable (decoder) in
/-- The transactions on their way from a reply to the receiver. -/
def underWay (f : Transaction → Nat) (p : Pipeline) : Nat :=
  total f p.decoded.toList + total f (p.raw.filterMap (accepted decoder)) +
    total (fun x => total f (x.raws.filterMap (accepted decoder))) p.fetchers

/-- How what was asked, found and sent since some blocks were planned adds up with what is still in
the pipeline. Searches are asked for in their order, and no transaction comes before its block. -/
structure Flow (decoder : RawTransaction → Except DecodeError (Measured Transaction))
    (answers : SearchPage → SearchReply → Prop) (bs : List Block) (asked : List SearchPage)
    (found : List (SearchPage × SearchReply)) (sent : List Payload) (p : Pipeline) : Prop where
  order : asked ++ p.searches ++ p.plan.filterMap Job.page? = (jobs bs).filterMap Job.page?
  pages : ∀ f, total f (found.map Prod.fst) + total (fun x => total f x.pages) p.fetchers =
    total f asked
  blocks : sent.filterMap Payload.block? ++ p.plan.filterMap Job.block? = bs
  transactions : ∀ f, total f (sent.filterMap Payload.transaction?) + underWay decoder f p =
    total f ((rawsOf found).filterMap (accepted decoder))
  failures : p.failures = failuresOf found
  answered : ∀ x ∈ found, answers x.1 x.2
  streamed : ∀ x ∈ sent, x.Streamed
  plan : p.plan <:+ jobs bs
  announced : Payload.Announced (Due decoder found) sent

/-! ## Every move keeps the account -/

section Step

variable {answers : SearchPage → SearchReply → Prop} {bs : List Block} {asked : List SearchPage}
  {found : List (SearchPage × SearchReply)} {sent : List Payload} {p q : Pipeline} {m : Move}

theorem step_order (h : Moved decoder p m q) :
    p.begun m ++ q.searches ++ q.plan.filterMap Job.page? =
      p.searches ++ p.plan.filterMap Job.page? := by
  cases h <;> simp_all [begun, withFetcher, List.filterMap_cons, Job.page?]

/-- What a move asks is what a fetcher waits for afterwards, unless it has been found. -/
theorem step_pages (h : Moved decoder p m q) (f : SearchPage → Nat) :
    total f ((p.ended m).map Prod.fst) + total (fun x => total f x.pages) q.fetchers =
      total (fun x => total f x.pages) p.fetchers + total f (p.begun m) := by
  cases h with
  | take place s rest hsearches hfree =>
    have hset := total_set (fun x => total f x.pages) p.fetchers place .free (.asking s) hfree
    simp only [begun, ended, withFetcher, hsearches, Fetch.pages, List.head?_cons,
      Option.toList_some, List.map_nil, total] at hset ⊢
    omega
  -- an answer moves the page from the fetcher to what was found
  | found place s txs hasking =>
    have hset := total_set (fun x => total f x.pages) p.fetchers place _ (.handing txs) hasking
    simp only [begun, ended, withFetcher, hasking, Fetch.pages, Option.map_some, Option.getD_some,
      List.map_cons, List.map_nil, total] at hset ⊢
    omega
  | lost place s e hasking =>
    have hset := total_set (fun x => total f x.pages) p.fetchers place _ .free hasking
    simp only [begun, ended, withFetcher, hasking, Fetch.pages, Option.map_some, Option.getD_some,
      List.map_cons, List.map_nil, total] at hset ⊢
    omega
  | leave place hhanding =>
    have hset := total_set (fun x => total f x.pages) p.fetchers place _ .free hhanding
    simp only [begun, ended, withFetcher, Fetch.pages, List.map_nil, total] at hset ⊢
    omega
  | hand place tx txs hhanding hroom =>
    have hset := total_set (fun x => total f x.pages) p.fetchers place _ (.handing txs) hhanding
    simp only [begun, ended, withFetcher, Fetch.pages, List.map_nil, total] at hset ⊢
    omega
  | _ => simp [begun, ended, total]

theorem step_blocks (h : Moved decoder p m q) :
    (p.emitted m).filterMap Payload.block? ++ q.plan.filterMap Job.block? =
      p.plan.filterMap Job.block? := by
  cases h <;> simp_all [emitted, withFetcher, List.filterMap_cons, Job.block?, Payload.block?]

variable (decoder) in
/-- What a fetcher has to queue weighs the same on either side of a change. -/
theorem total_raws_set (f : Transaction → Nat) {place : Nat} {x y : Fetch}
    (h : p.fetchers[place]? = some x) :
    total (fun x => total f (x.raws.filterMap (accepted decoder))) (p.fetchers.set place y) +
        total f (x.raws.filterMap (accepted decoder)) =
      total (fun x => total f (x.raws.filterMap (accepted decoder))) p.fetchers +
        total f (y.raws.filterMap (accepted decoder)) :=
  total_set (fun x => total f (x.raws.filterMap (accepted decoder))) p.fetchers place x y h

theorem step_transactions (h : Moved decoder p m q) (f : Transaction → Nat) :
    total f ((p.emitted m).filterMap Payload.transaction?) + underWay decoder f q =
      underWay decoder f p + total f ((rawsOf (p.ended m)).filterMap (accepted decoder)) := by
  unfold underWay
  cases h with
  | passBlock b rest hplan hroom =>
    simp [emitted, ended, rawsOf, hplan, List.filterMap_cons, Job.block?, Payload.transaction?,
      total]
  | queueSearch s rest hplan hroom =>
    simp [emitted, ended, rawsOf, hplan, Job.block?, total]
  | take place s rest hsearches hfree =>
    have hset := total_raws_set decoder f (y := .asking s) hfree
    simp only [emitted, ended, rawsOf, withFetcher, Fetch.raws, List.filterMap_nil, total,
      List.flatMap_nil] at hset ⊢
    omega
  | found place s txs hasking =>
    have hset := total_raws_set decoder f (y := .handing txs) hasking
    simp only [emitted, ended, rawsOf, withFetcher, hasking, Fetch.pages, Fetch.raws,
      Option.map_some, Option.getD_some, List.map_cons, List.map_nil, List.flatMap_cons,
      List.flatMap_nil, List.append_nil, Except.toOption, List.filterMap_nil, total] at hset ⊢
    omega
  | lost place s e hasking =>
    have hset := total_raws_set decoder f (y := .free) hasking
    simp only [emitted, ended, rawsOf, withFetcher, hasking, Fetch.pages, Fetch.raws,
      Option.map_some, Option.getD_some, Option.getD_none, List.map_cons, List.map_nil,
      List.flatMap_cons, List.flatMap_nil, List.append_nil, Except.toOption, List.filterMap_nil,
      total] at hset ⊢
    omega
  | leave place hhanding =>
    have hset := total_raws_set decoder f (y := .free) hhanding
    simp only [emitted, ended, rawsOf, withFetcher, Fetch.raws, List.filterMap_nil, total,
      List.flatMap_nil] at hset ⊢
    omega
  | hand place tx txs hhanding hroom =>
    have hset := total_raws_set decoder f (y := .handing txs) hhanding
    have htx : (tx :: txs).filterMap (accepted decoder) =
        [tx].filterMap (accepted decoder) ++ txs.filterMap (accepted decoder) :=
      List.filterMap_append (l := [tx])
    simp only [emitted, ended, rawsOf, withFetcher, Fetch.raws, htx, total_append,
      List.filterMap_append, List.filterMap_nil, total, List.flatMap_nil] at hset ⊢
    omega
  -- a transaction that can be decoded stays on its way, another one did not count
  | decode tx rest t hdecoded hraw ht =>
    simp only [emitted, ended, rawsOf, hdecoded, hraw, List.filterMap_cons, accepted_ok ht,
      Option.toList, List.filterMap_nil, List.flatMap_nil, total]
    omega
  | drop tx rest e hdecoded hraw ht =>
    simp [emitted, ended, rawsOf, hdecoded, hraw, accepted_error ht, total]
  | passOn t hdecoded hroom =>
    simp only [emitted, ended, rawsOf, hdecoded, Option.toList, List.map_cons, List.map_nil,
      List.filterMap_cons, Payload.transaction?, List.filterMap_nil, List.flatMap_nil, total]
    omega
  | forward x rest hout => simp [emitted, ended, rawsOf, total]

theorem step_streamed (h : Moved decoder p m q) : ∀ x ∈ p.emitted m, x.Streamed := by
  intro x hx
  cases h with
  | passBlock b rest hplan hroom =>
    simp only [emitted, hplan, List.head?_cons, Option.bind_some, Job.block?] at hx
    rw [List.mem_singleton.1 hx]
    trivial
  | passOn t hdecoded hroom =>
    simp only [emitted, hdecoded] at hx
    rw [List.mem_singleton.1 hx]
    trivial
  | queueSearch s rest hplan hroom => simp [emitted, hplan, Job.block?] at hx
  | _ => exact absurd hx List.not_mem_nil

theorem step_failures (h : Moved decoder p m q) :
    q.failures = p.failures ++ failuresOf (p.ended m) := by
  cases h <;> simp_all [ended, failuresOf, withFetcher, Fetch.pages]

/-- Queues do not grow or shrink in size, and fetchers neither come nor go. -/
theorem step_shape (h : Moved decoder p m q) :
    q.capacities = p.capacities ∧ q.fetchers.length = p.fetchers.length := by
  cases h <;> simp [withFetcher]

theorem step_plan (h : Moved decoder p m q) : q.plan <:+ p.plan := by
  cases h with
  | passBlock b rest hplan hroom | queueSearch s rest hplan hroom =>
    rw [hplan]
    exact List.suffix_cons _ _
  | _ => exact List.suffix_refl _

/-- A transaction that is decoded is due. -/
theorem Flow.due (hp : Flow decoder answers bs asked found sent p) {t : Transaction}
    (hdecoded : p.decoded = some t) : Due decoder found sent t := by
  have hfound : t ∈ (rawsOf found).filterMap (accepted decoder) := by
    have hweight (f : Transaction → Nat) :
        total f [t] ≤ total f ((rawsOf found).filterMap (accepted decoder)) := by
      have htransactions := hp.transactions f
      simp only [underWay, hdecoded, Option.toList_some] at htransactions
      omega
    exact mem_of_total hweight (List.mem_singleton_self t)
  obtain ⟨raw, hraw, haccepted⟩ := List.mem_filterMap.1 hfound
  obtain ⟨x, hx, hraw⟩ := List.mem_flatMap.1 hraw
  have hasked : x.1 ∈ asked := by
    refine mem_of_total (fun f => ?_) (List.mem_map_of_mem hx)
    rw [← hp.pages f]
    exact Nat.le_add_right _ _
  -- what is no longer planned are the blocks that were sent and the searches that were queued
  obtain ⟨front, hfront⟩ := hp.plan
  have hblocks : front.filterMap Job.block? = sent.filterMap Payload.block? := by
    have hall := jobs_blocks bs
    rw [← hfront, List.filterMap_append] at hall
    exact List.append_cancel_right (hall.trans hp.blocks.symm)
  have hpages : front.filterMap Job.page? = asked ++ p.searches := by
    have hall := hp.order
    rw [← hfront, List.filterMap_append] at hall
    exact (List.append_cancel_right hall).symm
  have hsearch : .search x.1 ∈ front := by
    have hmem : x.1 ∈ front.filterMap Job.page? := hpages ▸ List.mem_append_left _ hasked
    obtain ⟨job, hjob, hpage⟩ := List.mem_filterMap.1 hmem
    cases job with
    | pass b => cases hpage
    | search s =>
      cases hpage
      exact hjob
  obtain ⟨b, hb, hpage⟩ := pass_of_search hfront hsearch
  have hsent : b ∈ sent.filterMap Payload.block? := hblocks ▸ List.mem_filterMap.2 ⟨_, hb, rfl⟩
  obtain ⟨payload, hpayload, hblock⟩ := List.mem_filterMap.1 hsent
  cases payload with
  | block b' =>
    cases hblock
    exact ⟨b, hpayload, x, hx, hpage, raw, hraw, haccepted⟩
  | _ => cases hblock

theorem step_announced (hp : Flow decoder answers bs asked found sent p) (h : Moved decoder p m q) :
    Payload.Announced (Due decoder (found ++ p.ended m)) (sent ++ p.emitted m) := by
  have hannounced := hp.announced.imp fun before t _ hdue => hdue.mono (p.ended m)
  cases h with
  | passBlock b rest hplan hroom =>
    have hemitted : p.emitted .produce = [.block b] := by simp [emitted, hplan, Job.block?]
    rw [hemitted]
    refine hannounced.concat fun t ht => ?_
    cases ht
  | queueSearch s rest hplan hroom =>
    have hemitted : p.emitted .produce = [] := by simp [emitted, hplan, Job.block?]
    rw [hemitted, List.append_nil]
    exact hannounced
  | passOn t hdecoded hroom =>
    have hemitted : p.emitted .pass = [.transaction t] := by simp [emitted, hdecoded]
    rw [hemitted]
    refine hannounced.concat fun t' ht' => ?_
    cases ht'
    exact (hp.due hdecoded).mono _
  | _ =>
    show Payload.Announced _ (sent ++ [])
    rw [List.append_nil]
    exact hannounced

/-- **Every move keeps the account.** -/
theorem Flow.step (hp : Flow decoder answers bs asked found sent p) (h : Moved decoder p m q)
    (hm : p.Permits answers m) :
    Flow decoder answers bs (asked ++ p.begun m) (found ++ p.ended m) (sent ++ p.emitted m) q where
  order := by
    rw [← hp.order, List.append_assoc, List.append_assoc, List.append_assoc,
      ← List.append_assoc (p.begun m), step_order h]
  pages f := by
    have hpages := hp.pages f
    have hstep := step_pages h f
    rw [List.map_append, total_append, total_append]
    omega
  blocks := by
    rw [List.filterMap_append, List.append_assoc, step_blocks h, hp.blocks]
  transactions f := by
    have htransactions := hp.transactions f
    have hstep := step_transactions h f
    rw [List.filterMap_append, total_append, rawsOf_append, List.filterMap_append, total_append]
    omega
  failures := by
    rw [step_failures h, hp.failures, failuresOf_append]
  answered x hx := by
    rcases List.mem_append.1 hx with hx | hx
    · exact hp.answered x hx
    · exact hm x hx
  streamed x hx := by
    rcases List.mem_append.1 hx with hx | hx
    · exact hp.streamed x hx
    · exact step_streamed h x hx
  plan := (step_plan h).trans hp.plan
  announced := step_announced hp h

end Step

/-! ## The account in the end -/

/-- Nothing is left to do but for the receiver. -/
def isDrained (p : Pipeline) : Bool :=
  p.plan.isEmpty && p.searches.isEmpty && p.fetchers.all Fetch.isFree && p.raw.isEmpty &&
    p.decoded.isNone

theorem isDone_iff {p : Pipeline} : p.isDone = true ↔ p.isDrained = true ∧ p.out = [] := by
  simp [isDone, isDrained]

theorem total_free {f : Fetch → Nat} (hf : f .free = 0) {fetchers : List Fetch}
    (h : fetchers.all Fetch.isFree = true) : total f fetchers = 0 := by
  induction fetchers with
  | nil => rfl
  | cons x rest ih =>
    rw [List.all_cons, Bool.and_eq_true] at h
    rw [total, ih h.2, Fetch.eq_free h.1, hf]

/-- Nothing was asked, found or sent when the blocks have just been planned. -/
theorem Flow.start {answers : SearchPage → SearchReply → Prop} {bs : List Block} {p : Pipeline}
    (hplan : p.plan = jobs bs) (hsearches : p.searches = [])
    (hfetchers : p.fetchers.all Fetch.isFree = true) (hraw : p.raw = []) (hdecoded : p.decoded = none)
    (hfailures : p.failures = []) : Flow decoder answers bs [] [] [] p where
  order := by rw [hsearches, hplan, List.append_nil, List.nil_append]
  pages f := by
    rw [total_free (f := fun x => total f x.pages) rfl hfetchers]
    rfl
  blocks := by rw [hplan, jobs_blocks, List.filterMap_nil, List.nil_append]
  transactions f := by
    rw [underWay, hdecoded, hraw,
      total_free (f := fun x => total f (x.raws.filterMap (accepted decoder))) rfl hfetchers]
    rfl
  failures := hfailures
  answered x hx := absurd hx List.not_mem_nil
  streamed x hx := absurd hx List.not_mem_nil
  plan := hplan ▸ List.suffix_refl _
  announced := Payload.announced_nil

/-- What was asked, found and sent of some blocks when nothing more can come: each page of each block
was asked for once and answered once, each block was sent once, and each transaction that was found
and can be decoded was sent once, after its block. -/
structure Settled (decoder : RawTransaction → Except DecodeError (Measured Transaction))
    (answers : SearchPage → SearchReply → Prop) (bs : List Block) (asked : List SearchPage)
    (found : List (SearchPage × SearchReply)) (sent : List Payload) : Prop where
  asked_eq : asked = pagesOf bs
  found_perm : (found.map Prod.fst).Perm (pagesOf bs)
  answered : ∀ x ∈ found, answers x.1 x.2
  blocks_eq : sent.filterMap Payload.block? = bs
  transactions_perm : (sent.filterMap Payload.transaction?).Perm
    ((rawsOf found).filterMap (accepted decoder))
  streamed : ∀ x ∈ sent, x.Streamed
  announced : Payload.Announced (Due decoder found) sent

/-- **In the end the account is settled.** -/
theorem Flow.settled {answers : SearchPage → SearchReply → Prop} {bs : List Block}
    {asked : List SearchPage} {found : List (SearchPage × SearchReply)} {sent : List Payload}
    {p : Pipeline} (hp : Flow decoder answers bs asked found sent p) (h : p.isDrained = true) :
    Settled decoder answers bs asked found sent := by
  simp only [isDrained, Bool.and_eq_true, List.isEmpty_iff, Option.isNone_iff_eq_none] at h
  obtain ⟨⟨⟨⟨hplan, hsearches⟩, hfetchers⟩, hraw⟩, hdecoded⟩ := h
  have hasked : asked = pagesOf bs := by
    rw [← jobs_pages, ← hp.order, hplan, hsearches, List.append_nil, List.filterMap_nil,
      List.append_nil]
  refine ⟨hasked, perm_of_total fun f => ?_, hp.answered, ?_, perm_of_total fun f => ?_, hp.streamed,
    hp.announced⟩
  · have hpages := hp.pages f
    rwa [total_free (f := fun x => total f x.pages) rfl hfetchers, hasked] at hpages
  · have hblocks := hp.blocks
    rwa [hplan, List.filterMap_nil, List.append_nil] at hblocks
  · have htransactions := hp.transactions f
    rwa [underWay, hdecoded, hraw,
      total_free (f := fun x => total f (x.raws.filterMap (accepted decoder))) rfl hfetchers]
      at htransactions

end Pipeline

end ChainIndex
