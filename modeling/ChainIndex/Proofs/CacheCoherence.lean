import ChainIndex.Proofs.CacheWindow
import ChainIndex.Proofs.Exchanges

/-!
# The cache of a client is coherent

Two questions write the same cache: one for a single block, and one for a page of blocks, which also go
into a set. Both ask first and keep what they have read only at the very end (`askAndKeep`), so a failure
anywhere leaves everything as it is.

* `Holds.get?_offer`: a cached block stays as it is while its height is cached, whatever is offered.
* `stepped`: what one call does, by the blocks that it brought (`brought`) and the exchanges that it made
  (`notesOf`).
* `after_cache`, `told_offered`: after any calls, the cache is that of everything they have brought, and a
  reply has told each block of it.
* `cache_coherence`: **every cached block was told by the node, a failed call changes nothing, and a cached
  block is the answer until it is evicted**.
-/

namespace ChainIndex

/-! ## Offers -/

namespace BlockCache

variable {c : BlockCache} {window : List Block}

@[simp]
theorem offer_nil (c : BlockCache) : c.offer [] = c :=
  rfl

@[simp]
theorem offer_cons (c : BlockCache) (b : Block) (bs : List Block) :
    c.offer (b :: bs) = (c.add b).2.offer bs :=
  rfl

theorem offer_append (c : BlockCache) (xs ys : List Block) :
    c.offer (xs ++ ys) = (c.offer xs).offer ys :=
  List.foldl_append

/-- A block that is offered is the only one that may come to those that stay. -/
theorem Holds.add (h : c.Holds window) (hroom : 0 < c.capacity) (b : Block) :
    (c.add b).2.capacity = c.capacity ∧ ∃ window', (c.add b).2.Holds window' ∧
      ∀ x ∈ window', x ∈ window ∨ x = b ∧ c.contains b.height = false := by
  by_cases hthere : c.contains b.height = true
  · rw [add_of_contains hthere]
    exact ⟨rfl, window, h, fun x => .inl⟩
  · have hnew : ∀ x ∈ window, x.height ≠ b.height :=
      fun x hx heq => hthere (h.contains_iff.2 ⟨x, hx, heq⟩)
    obtain ⟨-, hcapacity, hholds⟩ := h.add_new hroom hnew
    refine ⟨hcapacity, _, hholds, fun x hx => ?_⟩
    rcases List.mem_append.1 hx with hx | hx
    · exact .inl (List.mem_of_mem_drop hx)
    · exact .inr ⟨List.mem_singleton.1 hx, by simpa using hthere⟩

theorem Holds.offer (h : c.Holds window) (hroom : 0 < c.capacity) (bs : List Block) :
    ∃ window', (c.offer bs).Holds window' ∧ (c.offer bs).capacity = c.capacity ∧
      ∀ x ∈ window', x ∈ window ∨ x ∈ bs := by
  induction bs generalizing c window with
  | nil => exact ⟨window, h, rfl, fun x => .inl⟩
  | cons b bs ih =>
    obtain ⟨hcapacity, between, hbetween, hsub⟩ := h.add hroom b
    obtain ⟨window', hholds, hcapacity', hsub'⟩ := ih hbetween (hcapacity.symm ▸ hroom)
    refine ⟨window', hholds, hcapacity'.trans hcapacity, fun x hx => ?_⟩
    rcases hsub' x hx with hx | hx
    · rcases hsub x hx with hx | ⟨rfl, -⟩
      · exact .inl hx
      · exact .inr List.mem_cons_self
    · exact .inr (List.mem_cons_of_mem _ hx)

/-- **A cached block stays as it is** while its height is cached. -/
theorem Holds.get?_offer (h : c.Holds window) (hroom : 0 < c.capacity) {height : Height} {b : Block}
    (hb : c.get? height = some b) {bs : List Block}
    (hstays : ∀ xs, xs <+: bs → (c.offer xs).contains height = true) :
    (c.offer bs).get? height = some b := by
  induction bs generalizing c window with
  | nil => exact hb
  | cons x bs ih =>
    obtain ⟨hcapacity, window', hholds, hsub⟩ := h.add hroom x
    obtain ⟨hmem, hheight⟩ := h.get?_eq_some_iff.1 hb
    -- the height is cached after `x`, too, and by no other block
    have hkept : (c.add x).2.get? height = some b := by
      have hthere : ((c.add x).2.get? height).isSome = true :=
        hstays [x] (List.prefix_append [x] bs)
      obtain ⟨y, hy⟩ := Option.isSome_iff_exists.1 hthere
      obtain ⟨hmem', hheight'⟩ := hholds.get?_eq_some_iff.1 hy
      rcases hsub y hmem' with hold | ⟨rfl, hfree⟩
      · rw [hy, List.inj_on_of_nodup_map h.distinct hold hmem (hheight'.trans hheight.symm)]
      · -- only a height that is not there is accepted
        rw [hheight', contains, hb] at hfree
        cases hfree
    exact ih hholds (hcapacity.symm ▸ hroom) hkept fun xs hxs =>
      hstays (x :: xs) ((List.prefix_cons_inj x).2 hxs)

end BlockCache

namespace Client

variable {τ ν : Type} [Quantity τ]

/-! ## What a reply tells -/

/-- The block of a reply to a question for one block. -/
def readBlock (body : String) : Except NodeError Block := do
  let a ← Answer.result Answer.OneBlock.shape.read body
  blockOf a.anyHash a.body.header (UInt64.ofNat a.body.transactions.length)

/-- The blocks of a page. All of them have to be usable. -/
def readPage (version : ChainVersion) (body : String) : Except NodeError (List Block) := do
  let metas ← Answer.result Answer.metas.read body
  metas.mapM (blockOfMeta version)

theorem forall₂_of_mapM {ε α β : Type} {f : α → Except ε β} {as : List α} {bs : List β}
    (h : as.mapM f = .ok bs) : List.Forall₂ (fun a b => f a = .ok b) as bs := by
  induction as generalizing bs with
  | nil =>
    cases h
    exact .nil
  | cons a as ih =>
    rw [List.mapM_cons] at h
    obtain ⟨b, hb, h⟩ := of_bind_ok h
    obtain ⟨rest, hrest, h⟩ := of_bind_ok h
    obtain rfl := Except.ok.inj h
    exact .cons hb (ih hrest)

/-- **A page is read as a whole**, every block on it. -/
theorem readPage_ok {version : ChainVersion} {body : String} {bs : List Block}
    (h : readPage version body = .ok bs) :
    ∃ metas, Answer.result Answer.metas.read body = .ok metas ∧
      List.Forall₂ (fun m b => blockOfMeta version m = .ok b) metas bs := by
  obtain ⟨metas, hmetas, hblocks⟩ := of_bind_ok h
  exact ⟨metas, hmetas, forall₂_of_mapM hblocks⟩

/-- The request for the block at a height. -/
def blockRequest (c : Client ν) (height : Height) : Request :=
  let r : Request := { path := "/block", timeout := c.config.blockTimeout }
  if 0 < height then r.withQuery "height" (toString height) else r

/-- Asks, makes something of the answer, and keeps it in the cache. -/
def askAndKeep {α β : Type} (c : Client ν) (read : Json → Option α) (make : α → Except NodeError β)
    (keep : β → BlockCache → BlockCache) (r : Request) (deadline : Deadline) : Asking τ ν β := do
  let a ← c.askChain read r deadline
  let b ← (make a : Except NodeError β)
  modify fun s => { s with cache := keep b s.cache }
  return b

def fetch (c : Client ν) (height : Height) (deadline : Deadline) : Asking τ ν Block :=
  c.askAndKeep Answer.OneBlock.shape.read
    (fun a => blockOf a.anyHash a.body.header (UInt64.ofNat a.body.transactions.length))
    (fun b cache => (cache.add b).2) (c.blockRequest height) deadline

theorem blocks_eq (c : Client ν) (range : HeightRange) (limit : UInt64) (deadline : Deadline) :
    c.blocks (τ := τ) range limit deadline = c.askAndKeep Answer.metas.read
      (fun metas => metas.mapM (blockOfMeta c.config.version)) (fun bs cache => cache.offer bs)
      (c.rangeRequest range limit) deadline := by
  rfl

theorem ending_block_cached {c : Client ν} {height : Height} {deadline : Deadline} {s : Session τ ν}
    (hpos : 0 < height) {b : Block} (h : s.cache.get? height = some b) :
    (c.block height deadline).ending s = (.ok b, s.record (.cacheLookup true)) := by
  rw [block, if_pos hpos]
  refine (Asking.ending_bind_ok (Asking.ending_get s)).trans ?_
  rw [h]
  rfl

theorem ending_block_miss {c : Client ν} {height : Height} {deadline : Deadline} {s : Session τ ν}
    (hpos : 0 < height) (h : s.cache.get? height = none) :
    (c.block height deadline).ending s =
      (c.fetch height deadline).ending (s.record (.cacheLookup false)) := by
  rw [block, if_pos hpos]
  refine (Asking.ending_bind_ok (Asking.ending_get s)).trans ?_
  rw [h]
  refine (Asking.ending_bind_ok (t := s.record (.cacheLookup false)) rfl).trans ?_
  rfl

/-- What was asked for is read from the last reply and kept; otherwise nothing is kept. -/
structure Kept {β : Type} (read : Reply → Except NodeError β) (keep : β → BlockCache → BlockCache)
    (r : Request) (deadline : Deadline) (s : Session τ ν) (notes : List Note)
    (result : Except NodeError β) (t : Session τ ν) : Prop where
  requests : ∀ n ∈ notes, n.request.path = r.path ∧ n.request.query = r.query
  eq_nil_iff : notes = [] ↔ ¬Admitted .chain deadline s
  gives : Gives read notes result
  failed : ∀ e, result = .error e → t.cache = s.cache
  kept : ∀ b, result = .ok b → t.cache = keep b s.cache

theorem does_askAndKeep {α β : Type} (c : Client ν) (read : Json → Option α)
    (make : α → Except NodeError β) (keep : β → BlockCache → BlockCache) (r : Request)
    (deadline : Deadline) (s : Session τ ν) :
    Asking.Does s (c.askAndKeep read make keep r deadline)
      (c.noting.askAndKeep read make keep r deadline)
      (Kept (fun reply => Answer.result read reply.body >>= make) keep r deadline s) := by
  refine (c.does_askChain read r deadline s).bind (fun notes a t hask => ?_) fun notes error t hask => ?_
  · -- there is an answer; what it gives is kept unless nothing can be made of it
    obtain ⟨hasked, hgives⟩ := hask
    obtain ⟨n, reply, hlast, hreplied, hread⟩ := hgives.last a rfl
    have hne : notes ≠ [] := by
      rintro rfl
      cases hlast
    have hmade : (Answer.result read reply.body >>= make) = make a := by
      rw [hread]
      rfl
    cases hmake : make a with
    | error error =>
      refine Asking.does_quiet (.error error) t rfl (fun _ => rfl) ?_
      rw [List.append_nil]
      exact ⟨hasked.requests, hasked.eq_nil_iff, gives_error hne, fun _ _ => hasked.cache, nofun⟩
    | ok b =>
      refine Asking.does_quiet (.ok b) { t with cache := keep b t.cache } rfl (fun _ => rfl) ?_
      rw [List.append_nil]
      refine ⟨hasked.requests, hasked.eq_nil_iff, ⟨fun hnil => absurd hnil hne, fun b' hb => ?_⟩,
        nofun, fun b' hb => ?_⟩
      · exact ⟨n, reply, hlast, hreplied, hmade.trans (hmake.trans hb)⟩
      · cases hb
        exact congrArg (keep b) hasked.cache
  · obtain ⟨hasked, hgives⟩ := hask
    refine ⟨hasked.requests, hasked.eq_nil_iff, ⟨fun hnil => ?_, nofun⟩, fun _ _ => hasked.cache,
      nofun⟩
    cases hgives.cancelled hnil
    rfl

/-! ## Calls -/

/-- What is asked of a client; in between some time may pass. -/
inductive Call where
  | block (height : Height) (deadline : Deadline)
  | page (range : HeightRange) (limit : UInt64) (deadline : Deadline)
  | idle (instant : Instant)

/-- A client at work, and the set that it merges pages into. -/
structure State (τ ν : Type) where
  session : Session τ ν
  set : BlockSet

def State.withNotes (st : State τ ν) (notes : List Note) : State τ (ν × List Note) :=
  { session := st.session.withNotes notes, set := st.set }

/-- The result of a call, with the block that was asked for, and the state then. -/
def perform (c : Client ν) : Call → State τ ν → Except NodeError (Option Block) × State τ ν
  | .block height deadline, st =>
    let (result, session) := (c.block height deadline).ending st.session
    (result.map some, { st with session })
  | .page range limit deadline, st =>
    let (result, session) := (c.gather range limit st.set deadline).ending st.session
    (result.map fun _ => none, { session, set := result.toOption.getD st.set })
  | .idle instant, st => (.ok none, { st with session := Clocked.reach instant st.session })

def after (c : Client ν) (calls : List Call) (st : State τ ν) : State τ ν :=
  calls.foldl (fun st call => (c.perform call st).2) st

/-- The exchanges that a call makes. -/
def notesOf (c : Client ν) (call : Call) (st : State τ ν) : List Note :=
  (c.noting.perform call (st.withNotes [])).2.session.node.2

/-- The blocks that a call offers to the cache. -/
def brought (c : Client ν) : Call → State τ ν → List Block
  | .block height deadline, st =>
    if 0 < height ∧ st.session.cache.contains height = true then []
    else ((c.block height deadline).ending st.session).1.toOption.toList
  | .page range limit deadline, st =>
    ((c.blocks range limit deadline).ending st.session).1.toOption.getD []
  | .idle _, _ => []

/-- All exchanges of some calls. -/
def history (c : Client ν) : List Call → State τ ν → List Note
  | [], _ => []
  | call :: calls, st => c.notesOf call st ++ c.history calls (c.perform call st).2

/-- All blocks that some calls offer to the cache, one after the other. -/
def offered (c : Client ν) : List Call → State τ ν → List Block
  | [], _ => []
  | call :: calls, st => c.brought call st ++ c.offered calls (c.perform call st).2

/-- The reply of an exchange tells a block. -/
def Tells (version : ChainVersion) (n : Note) (b : Block) : Prop :=
  ∃ reply, n.Replied reply ∧
    (n.request.path = "/block" ∧ readBlock reply.body = .ok b ∨
      n.request.path = "/blockchain" ∧ ∃ bs, readPage version reply.body = .ok bs ∧ b ∈ bs)

/-- A call with its exchanges, its result and the state then, as the notes tell it as well. -/
structure Performed (c : Client ν) (call : Call) (st : State τ ν) (notes : List Note)
    (result : Except NodeError (Option Block)) (st' : State τ ν) : Prop where
  perform_eq : c.perform call st = (result, st')
  noted (before : List Note) :
    c.noting.perform call (st.withNotes before) = (result, st'.withNotes (before ++ notes))

variable {c : Client ν} {call : Call} {st st' : State τ ν} {notes : List Note}
  {result : Except NodeError (Option Block)}

theorem Performed.notesOf_eq (h : Performed c call st notes result st') :
    c.notesOf call st = notes := by
  rw [notesOf, h.noted []]
  rfl

theorem perform_block (c : Client ν) (height : Height) (deadline : Deadline) (st : State τ ν) :
    c.perform (.block height deadline) st =
      (((c.block height deadline).ending st.session).1.map some,
        { st with session := ((c.block height deadline).ending st.session).2 }) := by
  rfl

theorem perform_page (c : Client ν) (range : HeightRange) (limit : UInt64) (deadline : Deadline)
    (st : State τ ν) {result : Except NodeError (List Block)} {t : Session τ ν}
    (h : (c.blocks range limit deadline).ending st.session = (result, t)) :
    c.perform (.page range limit deadline) st =
      (result.map fun _ => none,
        { session := t, set := (result.map st.set.extend).toOption.getD st.set }) := by
  have hgather : (c.gather range limit st.set deadline).ending st.session =
      (result.map st.set.extend, t) := by
    cases result with
    | error e => exact Asking.ending_bind_error h
    | ok bs => exact Asking.ending_bind_ok h
  rw [perform, hgather]
  cases result <;> rfl

/-- A call for a block that is cached. -/
theorem performed_cached (c : Client ν) {height : Height} {b : Block} (hpos : 0 < height)
    (h : st.session.cache.get? height = some b) (deadline : Deadline) :
    ∃ st', Performed c (.block height deadline) st [] (.ok (some b)) st' ∧
      st'.session.cache = st.session.cache ∧ st'.set = st.set := by
  refine ⟨{ st with session := st.session.record (.cacheLookup true) }, ⟨?_, fun before => ?_⟩,
    rfl, rfl⟩
  · rw [perform_block, ending_block_cached hpos h]
    rfl
  · have hnoted : (st.withNotes before).session.cache.get? height = some b := h
    rw [perform_block, ending_block_cached hpos hnoted, List.append_nil]
    rfl

/-- A call for a block that is not cached, or for the newest one. -/
theorem performed_block (c : Client ν) (st : State τ ν) {height : Height} (deadline : Deadline)
    (h : 0 < height → st.session.cache.get? height = none) :
    ∃ s notes result st', s.cache = st.session.cache ∧ (height = 0 → s = st.session) ∧
      Performed c (.block height deadline) st notes (Except.map some result) st' ∧
      ((c.block height deadline).ending st.session).1 = result ∧ st'.set = st.set ∧
      Kept (fun reply => readBlock reply.body) (fun b cache => (cache.add b).2)
        (c.blockRequest height) deadline s notes result st'.session := by
  -- a look-up goes ahead of the question if there is a height
  have hfetch : ∃ s : Session τ ν, s.cache = st.session.cache ∧ (height = 0 → s = st.session) ∧
      (c.block height deadline).ending st.session = (c.fetch height deadline).ending s ∧
      ∀ before, (c.noting.block height deadline).ending (st.session.withNotes before) =
        (c.noting.fetch height deadline).ending (s.withNotes before) := by
    by_cases hpos : 0 < height
    · refine ⟨st.session.record (.cacheLookup false), rfl, fun hzero => ?_,
        ending_block_miss hpos (h hpos), fun before => ending_block_miss hpos (h hpos)⟩
      exact absurd hpos (by simp [hzero])
    · obtain rfl : height = 0 := by
        simpa using hpos
      exact ⟨st.session, rfl, fun _ => rfl, rfl, fun _ => rfl⟩
  obtain ⟨s, hcache, hzero, hplain, hbeside⟩ := hfetch
  obtain ⟨notes, result, t, hp, hkept⟩ := c.does_askAndKeep Answer.OneBlock.shape.read
    (fun a => blockOf a.anyHash a.body.header (UInt64.ofNat a.body.transactions.length))
    (fun b cache => (cache.add b).2) (c.blockRequest height) deadline s
  have hending : (c.block height deadline).ending st.session = (result, t) :=
    hplain.trans hp.ending_eq
  refine ⟨s, notes, result, { st with session := t }, hcache, hzero, ⟨?_, fun before => ?_⟩,
    by rw [hending], rfl, hkept⟩
  · rw [perform_block, hending]
  · have hnoted : (c.noting.block height deadline).ending (st.withNotes before).session =
        (result, t.withNotes (before ++ notes)) := (hbeside before).trans (hp.noted before)
    rw [perform_block, hnoted]
    rfl

theorem performed_page (c : Client ν) (range : HeightRange) (limit : UInt64) (deadline : Deadline)
    (st : State τ ν) :
    ∃ notes result st', Performed c (.page range limit deadline) st notes
        (Except.map (fun _ => none) result) st' ∧
      ((c.blocks range limit deadline).ending st.session).1 = result ∧
      st'.set = (result.map st.set.extend).toOption.getD st.set ∧
      Kept (fun reply => readPage c.config.version reply.body) (fun bs cache => cache.offer bs)
        (c.rangeRequest range limit) deadline st.session notes result st'.session := by
  obtain ⟨notes, result, t, hp, hkept⟩ := c.does_askAndKeep Answer.metas.read
    (fun metas => metas.mapM (blockOfMeta c.config.version)) (fun bs cache => cache.offer bs)
    (c.rangeRequest range limit) deadline st.session
  have hending : (c.blocks range limit deadline).ending st.session = (result, t) := by
    rw [blocks_eq]
    exact hp.ending_eq
  refine ⟨notes, result, _, ⟨c.perform_page range limit deadline st hending, fun before => ?_⟩,
    by rw [hending], rfl, hkept⟩
  exact c.noting.perform_page range limit deadline (st.withNotes before) (hp.noted before)

/-! ## One call -/

/-- What a call does: the cache is offered what the replies of the call tell, and nothing if it fails. -/
structure Stepped (c : Client ν) (call : Call) (st : State τ ν) (notes : List Note)
    (result : Except NodeError (Option Block)) (st' : State τ ν) : Prop extends
    Performed c call st notes result st' where
  cache : st'.session.cache = st.session.cache.offer (c.brought call st)
  told : ∀ b ∈ c.brought call st, ∃ n ∈ notes, Tells c.config.version n b
  failed : ∀ e, result = .error e → c.brought call st = [] ∧ st'.set = st.set

/-- The exchanges of a question for a block tell what the question gives. -/
theorem tells_block {c : Client ν} {height : Height} {deadline : Deadline} {s t : Session τ ν}
    {notes : List Note} {result : Except NodeError Block}
    (h : Kept (fun reply => readBlock reply.body) (fun b cache => (cache.add b).2)
      (c.blockRequest height) deadline s notes result t) {b : Block} (hb : result = .ok b) :
    ∃ n ∈ notes, Tells c.config.version n b := by
  obtain ⟨n, reply, hlast, hreplied, hread⟩ := h.gives.last b hb
  have hmem := List.mem_of_getLast? hlast
  have hpath : (c.blockRequest height).path = "/block" := by
    rw [blockRequest]
    split <;> rfl
  exact ⟨n, hmem, reply, hreplied, .inl ⟨(h.requests n hmem).1.trans hpath, hread⟩⟩

theorem rangeRequest_path (c : Client ν) (range : HeightRange) (limit : UInt64) :
    (c.rangeRequest range limit).path = "/blockchain" := by
  rw [rangeRequest]
  dsimp only
  split <;> split <;> split <;> rfl

theorem tells_page {c : Client ν} {range : HeightRange} {limit : UInt64} {deadline : Deadline}
    {s t : Session τ ν} {notes : List Note} {result : Except NodeError (List Block)}
    (h : Kept (fun reply => readPage c.config.version reply.body) (fun bs cache => cache.offer bs)
      (c.rangeRequest range limit) deadline s notes result t) {bs : List Block}
    (hbs : result = .ok bs) : ∀ b ∈ bs, ∃ n ∈ notes, Tells c.config.version n b := by
  intro b hb
  obtain ⟨n, reply, hlast, hreplied, hread⟩ := h.gives.last bs hbs
  have hmem := List.mem_of_getLast? hlast
  exact ⟨n, hmem, reply, hreplied,
    .inr ⟨(h.requests n hmem).1.trans (c.rangeRequest_path range limit), bs, hread, hb⟩⟩

theorem stepped (c : Client ν) (call : Call) (st : State τ ν) :
    ∃ notes result st', Stepped c call st notes result st' := by
  cases call with
  | idle instant =>
    refine ⟨[], .ok none, { st with session := Clocked.reach instant st.session },
      ⟨⟨rfl, fun before => ?_⟩, (Session.idles_reach _ _).cache, List.forall_mem_nil _, nofun⟩⟩
    rw [List.append_nil]
    exact congrArg (fun s => (_, State.mk s _)) (Session.reach_withNotes _ _ _)
  | block height deadline =>
    by_cases hthere : 0 < height ∧ st.session.cache.contains height = true
    · obtain ⟨b, hb⟩ := Option.isSome_iff_exists.1 hthere.2
      obtain ⟨st', hperformed, hcache, hset⟩ := c.performed_cached hthere.1 hb deadline
      have hnone : c.brought (.block height deadline) st = [] := if_pos hthere
      refine ⟨[], _, st', ⟨hperformed, ?_, ?_, nofun⟩⟩
      · rw [hnone, BlockCache.offer_nil, hcache]
      · rw [hnone]
        exact List.forall_mem_nil _
    · have hmiss : 0 < height → st.session.cache.get? height = none := by
        intro hpos
        by_contra hsome
        exact hthere ⟨hpos, Option.isSome_iff_ne_none.2 hsome⟩
      obtain ⟨s, notes, result, st', hcache, -, hperformed, hresult, hset, hkept⟩ :=
        c.performed_block st deadline hmiss
      have hbrought : c.brought (.block height deadline) st = result.toOption.toList := by
        rw [brought, if_neg hthere, hresult]
      refine ⟨notes, _, st', ⟨hperformed, ?_, ?_, ?_⟩⟩ <;> rw [hbrought] <;> clear hresult hbrought
      · cases result with
        | error e => exact (hkept.failed e rfl).trans hcache
        | ok b => rw [hkept.kept b rfl, hcache]; rfl
      · cases result with
        | error e => exact List.forall_mem_nil _
        | ok b => exact List.forall_mem_singleton.2 (tells_block hkept rfl)
      · cases result with
        | error e => exact fun _ _ => ⟨rfl, hset⟩
        | ok b => exact nofun
  | page range limit deadline =>
    obtain ⟨notes, result, st', hperformed, hresult, hset, hkept⟩ :=
      c.performed_page range limit deadline st
    have hbrought : c.brought (.page range limit deadline) st = result.toOption.getD [] := by
      rw [brought, hresult]
    refine ⟨notes, _, st', ⟨hperformed, ?_, ?_, ?_⟩⟩ <;> rw [hbrought] <;> clear hresult hbrought
    · cases result with
      | error e => exact hkept.failed e rfl
      | ok bs => exact hkept.kept bs rfl
    · cases result with
      | error e => exact List.forall_mem_nil _
      | ok bs => exact tells_page hkept rfl
    · cases result with
      | error e => exact fun _ _ => ⟨rfl, hset⟩
      | ok bs => exact nofun

/-- A call changes the cache by what it has brought alone, and nothing if it fails. -/
theorem perform_cache (c : Client ν) (call : Call) (st : State τ ν) :
    (c.perform call st).2.session.cache = st.session.cache.offer (c.brought call st) ∧
      ∀ b ∈ c.brought call st, ∃ n ∈ c.notesOf call st, Tells c.config.version n b := by
  obtain ⟨notes, result, st', h⟩ := c.stepped call st
  rw [h.perform_eq, h.notesOf_eq]
  exact ⟨h.cache, h.told⟩

theorem perform_failed {e : NodeError} (h : (c.perform call st).1 = .error e) :
    (c.perform call st).2.session.cache = st.session.cache ∧ (c.perform call st).2.set = st.set := by
  obtain ⟨notes, result, st', hstep⟩ := c.stepped call st
  rw [hstep.perform_eq] at h ⊢
  obtain ⟨hnone, hset⟩ := hstep.failed e h
  exact ⟨by rw [hstep.cache, hnone, BlockCache.offer_nil], hset⟩

theorem perform_noted (c : Client ν) (call : Call) (st : State τ ν) (before : List Note) :
    c.noting.perform call (st.withNotes before) =
      ((c.perform call st).1, (c.perform call st).2.withNotes (before ++ c.notesOf call st)) := by
  obtain ⟨notes, result, st', h⟩ := c.stepped call st
  rw [h.noted, h.perform_eq, h.notesOf_eq]

/-- A page: every block on it is usable, merged and offered. -/
theorem perform_page_ok {range : HeightRange} {limit : UInt64} {deadline : Deadline}
    {found : Option Block} (h : (c.perform (.page range limit deadline) st).1 = .ok found) :
    ∃ n reply metas bs, (c.notesOf (.page range limit deadline) st).getLast? = some n ∧
      n.Replied reply ∧ Answer.result Answer.metas.read reply.body = .ok metas ∧
      List.Forall₂ (fun m b => blockOfMeta c.config.version m = .ok b) metas bs ∧
      (c.perform (.page range limit deadline) st).2.set = st.set.extend bs ∧
      (c.perform (.page range limit deadline) st).2.session.cache = st.session.cache.offer bs := by
  obtain ⟨notes, result, st', hperformed, -, hset, hkept⟩ := c.performed_page range limit deadline st
  rw [hperformed.perform_eq] at h ⊢
  rw [hperformed.notesOf_eq]
  cases result with
  | error e => cases h
  | ok bs =>
    obtain ⟨n, reply, hlast, hreplied, hread⟩ := hkept.gives.last bs rfl
    obtain ⟨metas, hmetas, hbs⟩ := readPage_ok hread
    exact ⟨n, reply, metas, bs, hlast, hreplied, hmetas, hbs, hset, hkept.kept bs rfl⟩

theorem perform_cached {height : Height} {b : Block} (hpos : 0 < height)
    (h : st.session.cache.get? height = some b) (deadline : Deadline) :
    (c.perform (.block height deadline) st).1 = .ok (some b) ∧
      c.notesOf (.block height deadline) st = [] ∧
      (c.perform (.block height deadline) st).2.session.cache = st.session.cache ∧
      (c.perform (.block height deadline) st).2.set = st.set := by
  obtain ⟨st', hperformed, hcache, hset⟩ := c.performed_cached hpos h deadline
  rw [hperformed.perform_eq, hperformed.notesOf_eq]
  exact ⟨rfl, rfl, hcache, hset⟩

/-- A block that is not cached is that of the last reply, and is offered to the cache. -/
theorem perform_fetched {height : Height} {deadline : Deadline} {found : Option Block}
    (hmiss : 0 < height → st.session.cache.get? height = none)
    (h : (c.perform (.block height deadline) st).1 = .ok found) :
    ∃ n reply b, found = some b ∧
      (c.notesOf (.block height deadline) st).getLast? = some n ∧ n.Replied reply ∧
      readBlock reply.body = .ok b ∧
      (c.perform (.block height deadline) st).2.session.cache = (st.session.cache.add b).2 ∧
      (c.perform (.block height deadline) st).2.set = st.set := by
  obtain ⟨s, notes, result, st', hcache, -, hperformed, -, hset, hkept⟩ :=
    c.performed_block st deadline hmiss
  rw [hperformed.perform_eq] at h ⊢
  rw [hperformed.notesOf_eq]
  cases result with
  | error e => cases h
  | ok b =>
    obtain ⟨n, reply, hlast, hreplied, hread⟩ := hkept.gives.last b rfl
    have hfound : found = some b := (Except.ok.inj h).symm
    exact ⟨n, reply, b, hfound, hlast, hreplied, hread, by rw [hkept.kept b rfl, hcache], hset⟩

theorem perform_cancelled {height : Height} {deadline : Deadline}
    (hmiss : 0 < height → st.session.cache.get? height = none)
    (h : c.notesOf (.block height deadline) st = []) :
    (c.perform (.block height deadline) st).1 = .error .cancelled := by
  obtain ⟨s, notes, result, st', -, -, hperformed, -, -, hkept⟩ :=
    c.performed_block st deadline hmiss
  rw [hperformed.notesOf_eq] at h
  rw [hperformed.perform_eq, hkept.gives.cancelled h]
  rfl

/-- **The newest block is asked for**, unless the call is cancelled before. -/
theorem perform_newest (c : Client ν) (deadline : Deadline) (st : State τ ν) :
    (c.notesOf (.block 0 deadline) st = [] ↔ ¬Admitted .chain deadline st.session) ∧
      (c.notesOf (.block 0 deadline) st = [] →
        (c.perform (.block 0 deadline) st).1 = .error .cancelled) := by
  have hmiss : (0 : Height) < 0 → st.session.cache.get? 0 = none := fun h => absurd h (by decide)
  obtain ⟨s, notes, result, st', -, hzero, hperformed, -, -, hkept⟩ :=
    c.performed_block st deadline hmiss
  obtain rfl := hzero rfl
  rw [hperformed.perform_eq, hperformed.notesOf_eq]
  refine ⟨hkept.eq_nil_iff, fun hnil => ?_⟩
  rw [hkept.gives.cancelled hnil]
  rfl

/-! ## Any number of calls -/

theorem after_cache (c : Client ν) (calls : List Call) (st : State τ ν) :
    (c.after calls st).session.cache = st.session.cache.offer (c.offered calls st) := by
  induction calls generalizing st with
  | nil => rfl
  | cons call calls ih =>
    rw [after, List.foldl_cons]
    rw [offered, BlockCache.offer_append, ← (c.perform_cache call st).1]
    exact ih _

theorem told_offered (c : Client ν) (calls : List Call) (st : State τ ν) :
    ∀ b ∈ c.offered calls st, ∃ n ∈ c.history calls st, Tells c.config.version n b := by
  induction calls generalizing st with
  | nil => exact List.forall_mem_nil _
  | cons call calls ih =>
    intro b hb
    rcases List.mem_append.1 hb with hb | hb
    · obtain ⟨n, hn, htells⟩ := (c.perform_cache call st).2 b hb
      exact ⟨n, List.mem_append_left _ hn, htells⟩
    · obtain ⟨n, hn, htells⟩ := ih _ b hb
      exact ⟨n, List.mem_append_right _ hn, htells⟩

/-- A client with an empty cache, whatever else there is. -/
def fresh (c : Client ν) (s : Session τ ν) (set : BlockSet) : State τ ν :=
  { session := { s with cache := .ofCapacity c.config.cacheCapacity }, set }

/-- The cache of a client holds some of the blocks that were offered to it. -/
theorem holds_after (c : Client ν) (s : Session τ ν) (set : BlockSet) (calls : List Call) :
    ∃ window, (c.after calls (c.fresh s set)).session.cache.Holds window ∧
      0 < (c.after calls (c.fresh s set)).session.cache.capacity ∧
      ∀ b ∈ window, b ∈ c.offered calls (c.fresh s set) := by
  have hroom : 0 < (BlockCache.ofCapacity c.config.cacheCapacity).capacity :=
    Nat.lt_of_lt_of_le Nat.zero_lt_one (Nat.le_max_right _ _)
  obtain ⟨window, hholds, hcapacity, hsub⟩ :=
    (BlockCache.holds_ofCapacity c.config.cacheCapacity).offer hroom (c.offered calls (c.fresh s set))
  rw [after_cache]
  refine ⟨window, hholds, hcapacity.symm ▸ hroom, fun b hb => ?_⟩
  exact (hsub b hb).resolve_left List.not_mem_nil

/-- How a client stands that made these exchanges, and what its next call does. -/
structure Coherent (c : Client ν) (history : List Note) (st : State τ ν) : Prop where
  /-- Every cached block was told by a reply that was no failure, and is kept under its own height. -/
  told : ∀ height b, st.session.cache.get? height = some b →
    b.height = height ∧ ∃ n ∈ history, Tells c.config.version n b
  /-- A call makes these exchanges whether or not notes are taken, and to the same effect. -/
  noted : ∀ call before, c.noting.perform call (st.withNotes before) =
    ((c.perform call st).1, (c.perform call st).2.withNotes (before ++ c.notesOf call st))
  /-- **A call that fails changes nothing.** -/
  failed : ∀ call e, (c.perform call st).1 = .error e →
    (c.perform call st).2.session.cache = st.session.cache ∧ (c.perform call st).2.set = st.set
  /-- A page that succeeds is merged into the set and offered to the cache, every block of its reply in
  their order. -/
  merged : ∀ range limit deadline found,
    (c.perform (.page range limit deadline) st).1 = .ok found →
    ∃ n reply metas bs, (c.notesOf (.page range limit deadline) st).getLast? = some n ∧
      n.Replied reply ∧ Answer.result Answer.metas.read reply.body = .ok metas ∧
      List.Forall₂ (fun m b => blockOfMeta c.config.version m = .ok b) metas bs ∧
      (c.perform (.page range limit deadline) st).2.set = st.set.extend bs ∧
      (c.perform (.page range limit deadline) st).2.session.cache = st.session.cache.offer bs
  /-- **A block is given without an exchange exactly if it is cached.** -/
  cached_iff : ∀ height deadline, 0 < height →
    ((∃ found, (c.perform (.block height deadline) st).1 = .ok found) ∧
      c.notesOf (.block height deadline) st = [] ↔ st.session.cache.contains height = true)
  /-- It is the cached block then, and nothing changes. -/
  cached : ∀ height deadline b, 0 < height → st.session.cache.get? height = some b →
    (c.perform (.block height deadline) st).1 = .ok (some b) ∧
      c.notesOf (.block height deadline) st = [] ∧
      (c.perform (.block height deadline) st).2.session.cache = st.session.cache ∧
      (c.perform (.block height deadline) st).2.set = st.set
  /-- Any other block is told by the last reply, and is offered to the cache. -/
  fetched : ∀ height deadline found, (0 < height → st.session.cache.get? height = none) →
    (c.perform (.block height deadline) st).1 = .ok found →
    ∃ n reply b, found = some b ∧ (c.notesOf (.block height deadline) st).getLast? = some n ∧
      n.Replied reply ∧ readBlock reply.body = .ok b ∧
      (c.perform (.block height deadline) st).2.session.cache = (st.session.cache.add b).2 ∧
      (c.perform (.block height deadline) st).2.set = st.set
  /-- **A cached block stays the answer** until its height is evicted, whatever is told meanwhile. -/
  kept : ∀ later height b, st.session.cache.get? height = some b →
    (∀ bs, bs <+: c.offered later st → (st.session.cache.offer bs).contains height = true) →
    (c.after later st).session.cache.get? height = some b ∧
      (0 < height → ∀ deadline,
        (c.perform (.block height deadline) (c.after later st)).1 = .ok (some b) ∧
        c.notesOf (.block height deadline) (c.after later st) = [])
  /-- **The newest block is asked for**, unless the call is cancelled because no token is granted or the
  deadline has passed by then. -/
  newest : ∀ deadline, (c.notesOf (.block 0 deadline) st = [] ↔ ¬Admitted .chain deadline st.session) ∧
    (c.notesOf (.block 0 deadline) st = [] →
      (c.perform (.block 0 deadline) st).1 = .error .cancelled)

/-- **The cache of a client is coherent.** Whatever it was asked for and whatever the node answered, its
cache holds blocks that the node has told, a failed call leaves the cache and the set as they are, and a
cached block is the answer until it is evicted. -/
theorem cache_coherence (c : Client ν) (s : Session τ ν) (set : BlockSet) (calls : List Call) :
    Coherent c (c.history calls (c.fresh s set)) (c.after calls (c.fresh s set)) := by
  obtain ⟨window, hholds, hroom, hsub⟩ := c.holds_after s set calls
  have htold := c.told_offered calls (c.fresh s set)
  generalize c.after calls (c.fresh s set) = st at hholds hroom ⊢
  refine ⟨fun height b hb => ?_, fun call => c.perform_noted call st, fun call e => perform_failed,
    fun range limit deadline found => perform_page_ok, fun height deadline hpos => ⟨?_, fun h => ?_⟩,
    fun height deadline b hpos hb => perform_cached hpos hb deadline,
    fun height deadline found => perform_fetched, fun later height b hb hstays => ?_,
    fun deadline => c.perform_newest deadline st⟩
  · obtain ⟨hmem, hheight⟩ := hholds.get?_eq_some_iff.1 hb
    exact ⟨hheight, htold b (hsub b hmem)⟩
  · -- without an exchange, what is not cached is not given
    rintro ⟨⟨found, hfound⟩, hnone⟩
    by_contra hmiss
    rw [perform_cancelled (fun _ => Option.not_isSome_iff_eq_none.1 hmiss) hnone] at hfound
    cases hfound
  · obtain ⟨b, hb⟩ := Option.isSome_iff_exists.1 h
    obtain ⟨hfound, hnone, -⟩ := perform_cached (c := c) hpos hb deadline
    exact ⟨⟨_, hfound⟩, hnone⟩
  · have hkept : (c.after later st).session.cache.get? height = some b := by
      rw [after_cache]
      exact hholds.get?_offer hroom hb hstays
    refine ⟨hkept, fun hpos deadline => ?_⟩
    obtain ⟨hfound, hnone, -⟩ := perform_cached (c := c) hpos hkept deadline
    exact ⟨hfound, hnone⟩

/-- A deadline at the very beginning has always passed. -/
theorem not_admitted_zero (e : Endpoint) (s : Session τ ν) : ¬Admitted e (some 0) s := by
  rintro ⟨t, -, hbefore⟩
  exact absurd (hbefore 0 rfl) (Nat.not_lt_zero _)

/-- A node that would answer is not asked for its newest block when the deadline has passed. -/
theorem newest_not_asked :
    let body := "\x7b\"result\":\x7b\"block\":\x7b\"header\":\x7b\"height\":\"4\"," ++
      "\"time\":\"2021-03-01T10:00:00Z\"\x7d\x7d\x7d\x7d"
    let c : Client Unit := { transport := fun _ now node => (⟨.ok { body }, now⟩, node) }
    let st : State Float Unit := c.fresh (Session.start c.config ()) {}
    (readBlock body).toOption.isSome = true ∧
      c.notesOf (.block 0 (some 0)) st = [] ∧
      (c.perform (.block 0 (some 0)) st).1 = .error .cancelled := by
  intro body c st
  obtain ⟨hnone, hcancelled⟩ := c.perform_newest (some 0) st
  have hnotes := hnone.2 (not_admitted_zero .chain st.session)
  exact ⟨by decide +kernel, hnotes, hcancelled hnotes⟩

end Client

end ChainIndex
