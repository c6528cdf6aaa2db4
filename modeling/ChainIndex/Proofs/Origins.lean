import ChainIndex.Proofs.BlockSets
import ChainIndex.Proofs.Fetching

/-!
# Where everything comes from that a delivery asks for and sends

A trail is `Traced` to the segments of a delivery if only their parts were asked for, if only blocks were
sent that were known or came with a reply, and if only transactions were sent that a search has found and
that were decoded with such blocks.

* `Standing.traced`: **wherever a delivery stands, its trail is traced** to its segments.
* `decoded_of_steps`, `decoded_of_latest`: **every transaction that was sent is what the decoder made of
  one that was found**, with blocks that were received.
-/

namespace ChainIndex

open Pipeline (accepted rawsOf)

variable {σ : Type}

/-! ## What was sent was found -/

namespace Payload

theorem mem_block {sent : List Payload} {b : Block} :
    .block b ∈ sent ↔ b ∈ sent.filterMap block? := by
  rw [List.mem_filterMap]
  constructor
  · intro h
    exact ⟨_, h, rfl⟩
  · rintro ⟨x, hx, hb⟩
    cases x with
    | block =>
      cases hb
      exact hx
    | _ => cases hb

theorem mem_transaction {sent : List Payload} {t : Transaction} :
    .transaction t ∈ sent ↔ t ∈ sent.filterMap transaction? := by
  rw [List.mem_filterMap]
  constructor
  · intro h
    exact ⟨_, h, rfl⟩
  · rintro ⟨x, hx, ht⟩
    cases x with
    | transaction =>
      cases ht
      exact hx
    | _ => cases ht

end Payload

namespace Pipeline

variable {decoder : RawTransaction → Except DecodeError (Measured Transaction)}
  {answers : SearchPage → SearchReply → Prop} {bs : List Block} {asked : List SearchPage}
  {found : List (SearchPage × SearchReply)} {sent : List Payload} {p : Pipeline}

theorem accepted_eq_some {raw : RawTransaction} {t : Transaction} :
    accepted decoder raw = some t ↔ ∃ m, decoder raw = .ok m ∧ m.value = t := by
  cases hraw : decoder raw with
  | error e => simp [accepted_error hraw]
  | ok m => simp [accepted_ok hraw]

/-- Only the given blocks are sent, and only what was found and can be decoded. -/
structure Sent (decoder : RawTransaction → Except DecodeError (Measured Transaction))
    (bs : List Block) (found : List (SearchPage × SearchReply)) (sent : List Payload) : Prop where
  blocks : ∀ b, .block b ∈ sent → b ∈ bs
  transactions : ∀ t, .transaction t ∈ sent → t ∈ (rawsOf found).filterMap (accepted decoder)

theorem Flow.only (h : Flow decoder answers bs asked found sent p) : Sent decoder bs found sent where
  blocks _ hb := by
    rw [← h.blocks]
    exact List.mem_append_left _ (Payload.mem_block.1 hb)
  transactions _ ht := by
    -- the ones that were sent weigh no more than those that were found
    refine mem_of_total (fun weight => ?_) (Payload.mem_transaction.1 ht)
    rw [← h.transactions weight]
    exact Nat.le_add_right _ _

theorem Settled.only (h : Settled decoder answers bs asked found sent) :
    Sent decoder bs found sent where
  blocks _ hb := h.blocks_eq ▸ Payload.mem_block.1 hb
  transactions _ ht := h.transactions_perm.subset (Payload.mem_transaction.1 ht)

end Pipeline

/-! ## Trails of segments -/

namespace Trail

/-- A block that came with a reply. -/
def Received (t : Trail) (b : Block) : Prop :=
  ∃ x ∈ t.heard, ∃ bs, x.2 = .ok bs ∧ b ∈ bs

/-- A block that came with a reply, or that was known before. -/
def Had (segs : List Segment) (t : Trail) (b : Block) : Prop :=
  (∃ seg ∈ segs, b ∈ seg.known.blocks) ∨ t.Received b

/-- Everything in a trail comes from some segments, and from the replies for them. -/
structure Traced (f : RangeFetcher σ) (node : Behavior) (segs : List Segment) (t : Trail) : Prop where
  asked : ∀ part limit, .blocks part limit ∈ t.asked → limit = 0 ∧ ∃ seg ∈ segs, part ∈ seg.parts
  heard : ∀ x ∈ t.heard, node.blocks x.1 0 x.2 ∧ ∃ seg ∈ segs, x.1 ∈ seg.parts
  blocks : ∀ b, .block b ∈ t.sent → t.Had segs b
  transactions : ∀ tx, .transaction tx ∈ t.sent → ∃ set : BlockSet, (∀ b ∈ set.blocks, t.Had segs b) ∧
    ∃ raw ∈ rawsOf t.found, ∃ m, f.decodeWith set raw = .ok m ∧ m.value = tx

variable {f : RangeFetcher σ} {node : Behavior} {segs : List Segment} {seg : Segment} {t u : Trail}

theorem Had.append_left {b : Block} (h : t.Had segs b) (u : Trail) : (t ++ u).Had segs b :=
  h.imp_right fun ⟨x, hx, hb⟩ => ⟨x, List.mem_append_left _ hx, hb⟩

theorem Had.append_right {b : Block} (h : u.Had segs b) (t : Trail) : (t ++ u).Had segs b :=
  h.imp_right fun ⟨x, hx, hb⟩ => ⟨x, List.mem_append_right _ hx, hb⟩

theorem traced_nil : Traced f node segs {} where
  asked _ _ h := absurd h List.not_mem_nil
  heard _ h := absurd h List.not_mem_nil
  blocks _ h := absurd h List.not_mem_nil
  transactions _ h := absurd h List.not_mem_nil

theorem Traced.append (ht : Traced f node segs t) (hu : Traced f node segs u) :
    Traced f node segs (t ++ u) where
  asked part limit h := (List.mem_append.1 h).elim (ht.asked part limit) (hu.asked part limit)
  heard x h := (List.mem_append.1 h).elim (ht.heard x) (hu.heard x)
  blocks b h := (List.mem_append.1 h).elim (fun h => (ht.blocks b h).append_left u)
    fun h => (hu.blocks b h).append_right t
  transactions tx h := by
    rcases List.mem_append.1 h with h | h
    · obtain ⟨set, hset, raw, hraw, hdecoded⟩ := ht.transactions tx h
      refine ⟨set, fun b hb => (hset b hb).append_left u, raw, ?_, hdecoded⟩
      rw [found_append, Pipeline.rawsOf_append]
      exact List.mem_append_left _ hraw
    · obtain ⟨set, hset, raw, hraw, hdecoded⟩ := hu.transactions tx h
      refine ⟨set, fun b hb => (hset b hb).append_right t, raw, ?_, hdecoded⟩
      rw [found_append, Pipeline.rawsOf_append]
      exact List.mem_append_right _ hraw

/-- The parts of a segment are what is asked for it. -/
theorem traced_gathered {pending : List HeightRange} {arrived : List (HeightRange × BlocksReply)}
    (hseg : seg ∈ segs) (hgathered : seg.Gathered node pending arrived) :
    Traced f node segs { asked := seg.questions, heard := arrived } where
  asked part limit h := by
    obtain ⟨part', hpart, heq⟩ := List.mem_map.1 h
    cases heq
    exact ⟨rfl, seg, hseg, hpart⟩
  heard x h := ⟨hgathered.replies x h, seg, hseg,
    hgathered.parts.subset (List.mem_append_left _ (List.mem_map_of_mem h))⟩
  blocks _ h := absurd h List.not_mem_nil
  transactions _ h := absurd h List.not_mem_nil

theorem had_of_merge {set : BlockSet} {t : Trail} (hseg : seg ∈ segs)
    (hmerge : RangeFetcher.merge seg.known (t.heard.map Prod.snd) = .ok set) {b : Block}
    (hb : b ∈ set.blocks) : t.Had segs b := by
  obtain ⟨-, rfl⟩ := RangeFetcher.merge_eq_ok.1 hmerge
  rcases BlockSet.mem_of_mem_extend _ hb with hb | hb
  · exact .inl ⟨seg, hseg, hb⟩
  · obtain ⟨bs, hbs, hb⟩ := RangeFetcher.mem_blocksOf.1 hb
    obtain ⟨x, hx, hxbs⟩ := List.mem_map.1 hbs
    exact .inr ⟨x, hx, bs, hxbs, hb⟩

/-- What goes through a pipeline comes from the replies for its segment. -/
theorem traced_streamed {set : BlockSet} {arrived : List (HeightRange × BlocksReply)}
    {searched : List SearchPage} {found : List (SearchPage × SearchReply)} {sent : List Payload}
    (hseg : seg ∈ segs) (hgathered : seg.Gathered node [] arrived)
    (hmerge : RangeFetcher.merge seg.known (arrived.map Prod.snd) = .ok set)
    (hsent : Pipeline.Sent (f.decodeWith set) (seg.selected set) found sent) :
    Traced f node segs
      { asked := seg.questions ++ searched.map .search, heard := arrived, found, sent } where
  asked part limit h := by
    rcases List.mem_append.1 h with h | h
    · exact (traced_gathered (f := f) hseg hgathered).asked part limit h
    · obtain ⟨page, -, hpage⟩ := List.mem_map.1 h
      cases hpage
  heard := (traced_gathered (f := f) hseg hgathered).heard
  blocks b h := had_of_merge hseg hmerge (List.mem_filter.1 (hsent.blocks b h)).1
  transactions tx h := by
    obtain ⟨raw, hraw, htx⟩ := List.mem_filterMap.1 (hsent.transactions tx h)
    obtain ⟨m, hm, rfl⟩ := Pipeline.accepted_eq_some.1 htx
    exact ⟨set, fun b hb => had_of_merge hseg hmerge hb, raw, hraw, m, hm, rfl⟩

end Trail

namespace Report

variable {f : RangeFetcher σ} {node : Behavior} {segs : List Segment}

theorem traced_trails {done : List Report} (hdone : ∀ r ∈ done, r.Complete f node)
    (hsegs : ∀ r ∈ done, r.segment ∈ segs) : (trails done).Traced f node segs := by
  induction done with
  | nil => exact Trail.traced_nil
  | cons r done ih =>
    obtain ⟨hr, hdone⟩ := List.forall_mem_cons.1 hdone
    obtain ⟨hseg, hsegs⟩ := List.forall_mem_cons.1 hsegs
    exact (Trail.traced_streamed hseg hr.gathered hr.merged hr.settled.only).append (ih hdone hsegs)

end Report

/-! ## Trails of deliveries -/

namespace Transfer

variable {f : RangeFetcher σ} {node : Behavior} {segs : List Segment} {base : Trail} {s : Transfer}

theorem Past.traced {done : List Report} {left : List Segment} (h : Past f node segs done left) :
    (Report.trails done).Traced f node segs := by
  refine Report.traced_trails h.complete fun r hr => ?_
  rw [h.segments]
  exact List.mem_append_left _ (List.mem_map_of_mem hr)

theorem Past.mem {done : List Report} {seg : Segment} {left : List Segment}
    (h : Past f node segs done (seg :: left)) : seg ∈ segs := by
  rw [h.segments]
  exact List.mem_append_right _ List.mem_cons_self

/-- **Wherever a delivery stands, its trail is traced to its segments**, but for what was there before. -/
theorem Standing.traced (hs : Standing f node base segs s) :
    ∃ t, s.trail = base ++ t ∧ t.Traced f node segs := by
  cases hs with
  | idle done hpast ht | finished done hpast ht => exact ⟨_, ht, hpast.traced⟩
  | gathering done hpast hgathered ht
  | refused e done seg hpast arrived hgathered hmerge ht
  | closed done seg hpast arrived hgathered set hmerge hclosed ht =>
    refine ⟨_, ht.trans (Trail.append_assoc _ _ _), ?_⟩
    exact hpast.traced.append (Trail.traced_gathered hpast.mem hgathered)
  | streaming done hpast arrived hgathered hmerge searched found sent hflow ht =>
    refine ⟨_, ht.trans (Trail.append_assoc _ _ _), ?_⟩
    exact hpast.traced.append (Trail.traced_streamed hpast.mem hgathered hmerge hflow.only)
  | failed done r hpast hgathered hmerge hsettled hfailures ht =>
    rw [Report.trails_concat] at ht
    refine ⟨_, ht, ?_⟩
    exact hpast.traced.append (Trail.traced_streamed hpast.mem hgathered hmerge hsettled.only)

/-- **The trail of a delivery of segments is traced to them.** -/
theorem traced_of_steps (hs : Steps f node (start f segs) s) : s.trail.Traced f node segs := by
  obtain ⟨t, ht, htraced⟩ := ((standing_start f node segs).steps hs).traced
  rw [ht, Trail.nil_append]
  exact htraced

/-- Before a page is asked for, nothing of it is known. -/
theorem received_of_had {range : HeightRange} {t : Trail} {b : Block}
    (h : t.Had (f.segments range) b) : t.Received b := by
  refine h.resolve_left ?_
  rintro ⟨seg, hseg, hb⟩
  obtain ⟨page, -, rfl⟩ := List.mem_map.1 hseg
  exact absurd hb List.not_mem_nil

variable (f) in
/-- A transaction that was found, as it was decoded with blocks that were received. -/
def Decoded (s : Transfer) (tx : Transaction) : Prop :=
  ∃ set : BlockSet, (∀ b ∈ set.blocks, s.trail.Received b) ∧
    ∃ raw ∈ rawsOf s.trail.found, ∃ m, f.decodeWith set raw = .ok m ∧ m.value = tx

theorem decoded_of_steps {range : HeightRange} (hs : Steps f node (start f (f.segments range)) s)
    {tx : Transaction} (htx : .transaction tx ∈ s.trail.sent) : Decoded f s tx := by
  obtain ⟨set, hset, hraw⟩ := (traced_of_steps hs).transactions tx htx
  exact ⟨set, fun b hb => received_of_had (hset b hb), hraw⟩

theorem decoded_of_latest {q : LatestQuery} (hs : Steps f node (startLatest f q) s)
    {tx : Transaction} (htx : .transaction tx ∈ s.trail.sent) : Decoded f s tx := by
  cases standing_latest hs with
  | waiting | unreachable | empty => exact absurd htx List.not_mem_nil
  | known bs hreply hempty hstanding =>
    obtain ⟨t, ht, htraced⟩ := hstanding.traced
    rw [ht] at htx
    obtain ⟨set, hset, raw, hraw, hdecoded⟩ := htraced.transactions tx htx
    refine ⟨set, fun b hb => ?_, raw, ?_, hdecoded⟩
    -- what was known before are the newest blocks, and they came first
    · rw [ht]
      rcases hset b hb with ⟨seg, hseg, hb⟩ | ⟨x, hx, hb⟩
      · rw [List.mem_singleton.1 hseg] at hb
        have hnewest := (BlockSet.mem_of_mem_extend _ hb).resolve_left List.not_mem_nil
        exact ⟨({}, .ok bs), List.mem_append_left _ List.mem_cons_self, bs, rfl, hnewest⟩
      · exact ⟨x, List.mem_append_right _ hx, hb⟩
    · rw [ht]
      exact hraw

end Transfer

end ChainIndex
