import ChainIndex.Proofs.Crews
import ChainIndex.Proofs.Lines
import Mathlib.Logic.Relation

/-!
# The turns go round

A pipeline on a clock is run by parties that take turns (`Pipeline.choose`). Whoever is not asking the
node has the turn, wants it or stands in line (`Schedule.Ready`), and each move that is chosen keeps it so
(`Chosen.ready`). **If no move is chosen, nothing is left to do** (`choose_none`). So a pipeline is run to
its end (`deliver_steps`).
-/

namespace ChainIndex

open Pipeline (Moved Able)

variable {decoder : RawTransaction → Except DecodeError (Measured Transaction)}

namespace Schedule

variable {σ : Type} {p : Pipeline} {s s' : Schedule σ} {m : Pipeline.Move} {x : Party}
  {turns : List Party} {line : List Nat}

/-! ## Giving turns -/

/-- Somebody has the turn and uses it. -/
def Using (p : Pipeline) (m : Pipeline.Move) (s : Schedule σ) : Prop :=
  ∃ x, s.active = some x ∧ x.move? p s.line = some m

theorem giveTurn_kept (p : Pipeline) (turns : List Party) (s : Schedule σ) :
    (s.giveTurn p turns).2.crew = s.crew ∧ (s.giveTurn p turns).2.world = s.world := by
  induction turns generalizing s with
  | nil => exact ⟨rfl, rfl⟩
  | cons x rest ih =>
    rw [giveTurn]
    split
    · exact ⟨rfl, rfl⟩
    · exact ih _

/-- Whoever gets the turn uses it. -/
theorem giveTurn_some (hcovered : Covered p turns s.line)
    (h : (s.giveTurn p turns).1 = some m) :
    Using p m (s.giveTurn p turns).2 ∧
      Covered p (s.giveTurn p turns).2.wanting (s.giveTurn p turns).2.line := by
  induction turns generalizing s with
  | nil =>
    refine ⟨⟨.producer, rfl, h⟩, fun place hplace => ?_⟩
    exact (hcovered place hplace).imp_left fun hmem => absurd hmem List.not_mem_nil
  | cons x rest ih =>
    rw [giveTurn] at h ⊢
    split at h
    · rename_i m' hm
      cases h
      exact ⟨⟨x, rfl, hm⟩, hcovered⟩
    · exact ih (s := { s with line := x.stand p s.line }) hcovered.stand h

/-- If nobody can use the turn, all who wanted it stand in line. -/
theorem giveTurn_none (hcovered : Covered p turns s.line) (hcalled : Called p turns s.line)
    (h : (s.giveTurn p turns).1 = none) :
    Party.producer.move? p s.line = none ∧ Covered p [] (s.giveTurn p turns).2.line ∧
      Called p [] (s.giveTurn p turns).2.line := by
  induction turns generalizing s with
  | nil => exact ⟨h, hcovered, hcalled⟩
  | cons x rest ih =>
    rw [giveTurn] at h ⊢
    split at h
    · cases h
    · rename_i hm
      exact ih (s := { s with line := x.stand p s.line }) hcovered.stand (hcalled.stand hm) h

/-! ## Wanting a turn -/

/-- The parties that can go on before anybody has moved. -/
def ready (p : Pipeline) (s : Schedule σ) : List Party :=
  let called := (p.called s.line).map Party.fetcher
  if (Party.decoder.move? p s.line).isSome then .decoder :: called else called

theorem mem_queueUp (h : x ∈ s.ready p) : x ∈ (s.queueUp p).wanting := by
  have hturns : (s.queueUp p).turns =
      s.turns ++ (s.ready p).filter fun x => s.active != some x && !s.turns.contains x := rfl
  rw [wanting, hturns, List.mem_append, List.mem_append, List.mem_filter]
  by_cases hactive : s.active = some x
  · left
    show x ∈ s.active.toList
    rw [hactive]
    exact List.mem_singleton_self x
  · by_cases hmem : x ∈ s.turns
    · exact .inr (.inl hmem)
    · exact .inr (.inr ⟨h, by simp [hactive, hmem]⟩)

theorem first_mem_called {kind : Fetch → Bool} (heager : p.Eager kind) {first : Nat}
    {rest : List Nat} (h : p.standing line kind = first :: rest) : first ∈ p.called line := by
  rcases heager with ⟨rfl, hsearches⟩ | ⟨rfl, hroom⟩
  · have hlength : min p.searches.length 1 = 1 :=
      Nat.min_eq_right (List.length_pos_iff.2 hsearches)
    rw [Pipeline.called, h, hlength]
    exact List.mem_append_left _ List.mem_cons_self
  · obtain ⟨n, hn⟩ := Nat.exists_eq_succ_of_ne_zero (Nat.ne_of_gt hroom)
    rw [Pipeline.called, h, hn]
    exact List.mem_append_right _ List.mem_cons_self

/-- **Who can go on is called.** -/
theorem called_queueUp (p : Pipeline) (s : Schedule σ) :
    Called p (s.queueUp p).wanting (s.queueUp p).line where
  decoder := by
    intro hmove
    have hsome : (Party.decoder.move? p s.line).isSome = true := Option.isSome_iff_ne_none.2 hmove
    refine mem_queueUp ?_
    rw [ready, if_pos hsome]
    exact List.mem_cons_self
  first := by
    intro kind heager first rest hfirst
    refine mem_queueUp ?_
    have hmem : Party.fetcher first ∈ (p.called s.line).map Party.fetcher :=
      List.mem_map_of_mem (first_mem_called heager hfirst)
    rw [ready]
    split
    · exact List.mem_cons_of_mem _ hmem
    · exact hmem

theorem covered_queueUp (h : Covered p s.wanting s.line) :
    Covered p (s.queueUp p).wanting (s.queueUp p).line := by
  intro place hplace
  refine (h place hplace).imp_left fun hmem => ?_
  have hturns : (s.queueUp p).turns =
      s.turns ++ (s.ready p).filter fun x => s.active != some x && !s.turns.contains x := rfl
  rw [wanting, hturns, ← List.append_assoc]
  exact List.mem_append_left _ hmem

/-! ## What is chosen -/

variable {answers : SearchPage → SearchReply → Prop} {I : σ → Prop}

/-- What the fetcher at a place may get. -/
def Expects (answers : SearchPage → SearchReply → Prop) (p : Pipeline) (place : Nat)
    (reply : SearchReply) : Prop :=
  ∃ page, p.fetchers[place]? = some (.asking page) ∧ answers page reply

/-- The fetchers that ask are those who are busy in the crew, and they get what the node may reply. -/
structure Staffed (answers : SearchPage → SearchReply → Prop) (I : σ → Prop) (p : Pipeline)
    (crew : Crew σ SearchReply) (world : σ) : Prop where
  sound : crew.Sound I (Expects answers p)
  size : crew.places.size = p.fetchers.length
  busy : ∀ place, crew.Busy place ↔ ∃ page, p.fetchers[place]? = some (.asking page)
  world : I world

/-- A move that was chosen, and the surroundings in which it is made. -/
inductive Chosen (answers : SearchPage → SearchReply → Prop) (I : σ → Prop) (p : Pipeline) :
    Pipeline.Move → Schedule σ → Prop where
  | turn {m : Pipeline.Move} {s : Schedule σ} (hstaffed : Staffed answers I p s.crew s.world)
      (hcovered : Covered p s.wanting s.line) (husing : Using p m s) : Chosen answers I p m s
  | answer {place : Nat} {reply : SearchReply} {s : Schedule σ} (crew : Crew σ SearchReply)
      (hbusy : ∀ q, crew.Busy q ↔ ∃ page, p.fetchers[q]? = some (.asking page))
      (hsize : crew.places.size = p.fetchers.length)
      (hexpects : Expects answers p place reply)
      (hleft : Crew.Left I (Expects answers p) crew place s.crew s.world)
      (hactive : s.active = some (.fetcher place)) (hcovered : Covered p s.wanting s.line) :
      Chosen answers I p (.answer place reply) s

theorem goOn_some (h : s.goOn p = (some m, s')) :
    s' = s ∧ Using p m s := by
  rw [goOn] at h
  split at h
  · cases h
  · rename_i x hactive
    split at h
    · rename_i m' hm
      cases h
      exact ⟨rfl, x, hactive, hm⟩
    · cases h

/-- Whoever cannot use the turn gives it up. -/
theorem goOn_none (hcovered : Covered p s.wanting s.line) (hcalled : Called p s.wanting s.line)
    (h : s.goOn p = (none, s')) :
    s'.active = none ∧ s'.crew = s.crew ∧ s'.world = s.world ∧ Covered p s'.turns s'.line ∧
      Called p s'.turns s'.line := by
  rw [goOn] at h
  split at h
  -- nobody had the turn, so those who want it are those who wait for one
  · rename_i hactive
    cases h
    rw [wanting, hactive] at hcovered hcalled
    exact ⟨hactive, rfl, rfl, hcovered, hcalled⟩
  · rename_i x hactive
    split at h
    · cases h
    · rename_i hm
      cases h
      rw [wanting, hactive] at hcovered hcalled
      exact ⟨rfl, rfl, rfl, hcovered.stand, hcalled.stand hm⟩

variable [Clocked σ] {limit : Option Instant}

theorem answer_some (hstaffed : Staffed answers I p s.crew s.world) (hI : Timeless I)
    (hcovered : Covered p s.turns s.line) (h : s.answer limit = (some m, s')) :
    Chosen answers I p m s' := by
  rw [answer] at h
  split at h
  · rename_i place reply crew world hnext
    cases h
    obtain ⟨hexpects, hleft⟩ := hstaffed.sound.next_some hI hstaffed.world hnext
    refine .answer s.crew hstaffed.busy hstaffed.size hexpects hleft rfl fun q hq => ?_
    exact (hcovered q hq).imp_left fun hmem => List.mem_append_right _ hmem
  · cases h

theorem answer_none (hstaffed : Staffed answers I p s.crew s.world) (hI : Timeless I)
    (h : s.answer limit = (none, s')) :
    Staffed answers I p s'.crew s'.world ∧ s'.active = s.active ∧ s'.turns = s.turns ∧
      s'.line = s.line ∧ (limit = none → ∀ q, ¬s.crew.Busy q) := by
  rw [answer] at h
  split at h
  · cases h
  · rename_i crew world hnext
    cases h
    have hsame := hstaffed.sound.next_same hI hstaffed.world hnext
    refine ⟨⟨hsame.sound, hsame.size.trans hstaffed.size, fun q => ?_, hsame.world⟩, rfl, rfl, rfl,
      fun hlimit => ?_⟩
    · exact (hsame.busy q).trans (hstaffed.busy q)
    · subst hlimit
      exact hstaffed.sound.next_none hI hstaffed.world hnext

/-- What is chosen, or that all is done. -/
def Choice (answers : SearchPage → SearchReply → Prop) (I : σ → Prop) (p : Pipeline) :
    Option Pipeline.Move × Schedule σ → Prop
  | (some m, s) => Chosen answers I p m s
  | (none, s) => p.isDone = true ∧ I s.world

omit [Clocked σ] in
theorem firstOf_some {c : StateM (Schedule σ) (Option Pipeline.Move)} (h : c s = (some m, s'))
    (rest : List (StateM (Schedule σ) (Option Pipeline.Move))) :
    Pipeline.firstOf (c :: rest) s = (some m, s') := by
  simp only [Pipeline.firstOf, bind, StateT.bind, h]
  rfl

omit [Clocked σ] in
theorem firstOf_none {c : StateM (Schedule σ) (Option Pipeline.Move)} (h : c s = (none, s'))
    (rest : List (StateM (Schedule σ) (Option Pipeline.Move))) :
    Pipeline.firstOf (c :: rest) s = Pipeline.firstOf rest s' := by
  simp only [Pipeline.firstOf, bind, StateT.bind, h]

theorem choice_firstOf (hable : p.Able) (hstaffed : Staffed answers I p s.crew s.world)
    (hI : Timeless I) (hcovered : Covered p s.wanting s.line) (hcalled : Called p s.wanting s.line) :
    Choice answers I p (Pipeline.firstOf [goOn p, answer (some (Clocked.now s.world)),
      fun s => s.giveTurn p s.turns, answer none] s) := by
  -- the choices in their order; each goes on from what the one before it has left
  rcases hgo : s.goOn p with ⟨_ | m, s₁⟩
  swap
  · obtain ⟨rfl, husing⟩ := goOn_some hgo
    rw [firstOf_some hgo]
    exact .turn hstaffed hcovered husing
  obtain ⟨hactive, hcrew, hworld, hcovered₁, hcalled₁⟩ := goOn_none hcovered hcalled hgo
  rw [firstOf_none hgo]
  rw [← hcrew, ← hworld] at hstaffed
  rcases hdue : s₁.answer (some (Clocked.now s.world)) with ⟨_ | m, s₂⟩
  swap
  · rw [firstOf_some hdue]
    exact answer_some hstaffed hI hcovered₁ hdue
  -- no reply is due, so the crew has only got further with its work
  obtain ⟨hstaffed₂, hactive₂, hturns₂, hline₂, -⟩ := answer_none hstaffed hI hdue
  rw [firstOf_none hdue]
  rw [← hturns₂, ← hline₂] at hcovered₁ hcalled₁
  obtain ⟨hcrew₃, hworld₃⟩ := giveTurn_kept p s₂.turns s₂
  rcases hturn : s₂.giveTurn p s₂.turns with ⟨_ | m, s₃⟩
  swap
  · obtain ⟨husing, hcovered₃⟩ := giveTurn_some hcovered₁ (congrArg Prod.fst hturn)
    rw [firstOf_some hturn]
    rw [hturn] at husing hcovered₃ hcrew₃ hworld₃
    rw [← hcrew₃, ← hworld₃] at hstaffed₂
    exact .turn hstaffed₂ hcovered₃ husing
  -- nobody could use a turn, so all fetchers at home stand in line
  obtain ⟨hproducer, hcovered₃, hcalled₃⟩ :=
    giveTurn_none hcovered₁ hcalled₁ (congrArg Prod.fst hturn)
  rw [firstOf_none hturn]
  rw [hturn] at hcovered₃ hcalled₃ hcrew₃ hworld₃
  rw [← hcrew₃, ← hworld₃] at hstaffed₂
  rcases hlast : s₃.answer none with ⟨_ | m, s₄⟩
  swap
  · rw [firstOf_some hlast]
    refine answer_some hstaffed₂ hI (fun place hplace => ?_) hlast
    exact (hcovered₃ place hplace).imp_left fun hmem => absurd hmem List.not_mem_nil
  -- without a limit there is no reply only if nobody asks, so all fetchers are at home
  obtain ⟨hstaffed₄, -, -, -, hnobody⟩ := answer_none hstaffed₂ hI hlast
  rw [firstOf_none hlast]
  refine ⟨isDone_of_called hable hcovered₃ hcalled₃ hproducer fun place x hx => ?_, hstaffed₄.world⟩
  refine ⟨x, hx, ?_⟩
  rintro page rfl
  exact hnobody rfl place ((hstaffed₂.busy place).2 ⟨page, hx⟩)

/-! ## After a move -/

/-- Ready for the next move. -/
structure Ready (answers : SearchPage → SearchReply → Prop) (I : σ → Prop) (p : Pipeline)
    (s : Schedule σ) : Prop where
  staffed : Staffed answers I p s.crew s.world
  covered : Covered p s.wanting s.line

section Fetchers

variable {q : Pipeline} {place : Nat} {y : Fetch}

omit [Clocked σ] in
/-- Moves that no fetcher takes part in leave everybody ready. -/
theorem Ready.of_fetchers (h : Ready answers I p s) (hq : q.fetchers = p.fetchers) :
    Ready answers I q s := by
  obtain ⟨⟨hsound, hsize, hbusy, hworld⟩, hcovered⟩ := h
  have hexpects : Expects answers q = Expects answers p := by
    unfold Expects
    rw [hq]
  refine ⟨⟨hexpects ▸ hsound, hq ▸ hsize, hq ▸ hbusy, hworld⟩, fun place hplace => ?_⟩
  rw [Pipeline.AtHome, hq] at hplace
  exact hcovered place hplace

theorem getElem?_set_other (hq : q.fetchers = p.fetchers.set place y) {i : Nat} (hi : i ≠ place) :
    q.fetchers[i]? = p.fetchers[i]? := by
  rw [hq, List.getElem?_set_ne (Ne.symm hi)]

theorem getElem?_set_self (hq : q.fetchers = p.fetchers.set place y)
    (hplace : place < p.fetchers.length) : q.fetchers[place]? = some y := by
  rw [hq, List.getElem?_set_self hplace]

/-- All others stay covered when a fetcher changes. -/
theorem Covered.set {turns' : List Party} {line' : List Nat} (h : Covered p turns line)
    (hq : q.fetchers = p.fetchers.set place y) (hself : q.AtHome place → .fetcher place ∈ turns')
    (hturns : ∀ i, i ≠ place → .fetcher i ∈ turns → .fetcher i ∈ turns')
    (hline : ∀ i, i ≠ place → i ∈ line → i ∈ line') : Covered q turns' line' := by
  intro i hi
  by_cases hne : i = place
  · subst hne
    exact .inl (hself hi)
  · rw [Pipeline.AtHome, getElem?_set_other hq hne] at hi
    exact (h i hi).imp (hturns i hne) (hline i hne)

omit [Clocked σ] in
/-- What others expect does not change. -/
theorem sound_set {crew : Crew σ SearchReply} (h : crew.Sound I (Expects answers p))
    (hq : q.fetchers = p.fetchers.set place y) (hfree : ¬crew.Busy place) :
    crew.Sound I (Expects answers q) where
  nodup := h.nodup
  busy := h.busy
  always i a ha := by
    have hne : i ≠ place := fun heq => hfree (heq ▸ ⟨a, ha⟩)
    refine (h.always i a ha).imp fun reply hreply => ?_
    rw [Expects, getElem?_set_other hq hne]
    exact hreply

omit [Clocked σ] in
/-- A fetcher that neither asked nor asks now changes nothing for the crew. -/
theorem Staffed.set (h : Staffed answers I p s.crew s.world)
    (hq : q.fetchers = p.fetchers.set place y) (hplace : place < p.fetchers.length)
    (hbefore : ∀ page, p.fetchers[place]? ≠ some (.asking page)) (hafter : ∀ page, y ≠ .asking page) :
    Staffed answers I q s.crew s.world where
  sound := by
    refine sound_set h.sound hq fun hbusy => ?_
    obtain ⟨page, hpage⟩ := (h.busy place).1 hbusy
    exact hbefore page hpage
  size := by rw [h.size, hq, List.length_set]
  busy i := by
    rw [h.busy i]
    -- at the place itself nobody was busy before, nor is anybody now
    by_cases hne : i = place
    · subst hne
      rw [getElem?_set_self hq hplace]
      constructor
      · rintro ⟨page, hpage⟩
        exact absurd hpage (hbefore page)
      · rintro ⟨page, hpage⟩
        exact absurd (Option.some.inj hpage) (hafter page)
    · rw [getElem?_set_other hq hne]
  world := h.world

omit [Clocked σ] in
/-- A fetcher that takes a search is busy with it. -/
theorem Staffed.take (h : Staffed answers I p s.crew s.world) {page : SearchPage}
    (hq : q.fetchers = p.fetchers.set place (.asking page))
    (hfree : p.fetchers[place]? = some .free)
    {question : Activity σ SearchReply} (hquestion : question.Always I (answers page)) :
    Staffed answers I q (s.crew.start place question) s.world := by
  have hplace : place < p.fetchers.length := (List.getElem?_eq_some_iff.1 hfree).1
  have hcrew : place < s.crew.places.size := h.size ▸ hplace
  have hself := getElem?_set_self hq hplace
  have hnot : ¬s.crew.Busy place := by
    intro hbusy
    obtain ⟨page', hpage⟩ := (h.busy place).1 hbusy
    rw [hfree] at hpage
    cases hpage
  refine ⟨(sound_set h.sound hq hnot).start hcrew hnot (hquestion.imp fun reply hreply => ?_), ?_,
    fun i => ?_, h.world⟩
  · exact ⟨page, hself, hreply⟩
  · rw [hq, List.length_set, ← h.size]
    exact Array.size_setIfInBounds
  · rw [Crew.busy_start hcrew, h.busy i]
    by_cases hne : i = place
    · subst hne
      exact ⟨fun _ => ⟨page, hself⟩, fun _ => .inl rfl⟩
    · rw [getElem?_set_other hq hne]
      exact ⟨fun hor => hor.resolve_left hne, .inr⟩

omit [Clocked σ] in
/-- A fetcher that gets its answer is not busy any more. -/
theorem staffed_answered {crew : Crew σ SearchReply}
    (hbusy : ∀ i, crew.Busy i ↔ ∃ page, p.fetchers[i]? = some (.asking page))
    (hsize : crew.places.size = p.fetchers.length)
    (hleft : Crew.Left I (Expects answers p) crew place s.crew s.world)
    (hq : q.fetchers = p.fetchers.set place y) (hafter : ∀ page, y ≠ .asking page) :
    Staffed answers I q s.crew s.world := by
  have hplace : place < p.fetchers.length := by
    obtain ⟨page, hpage⟩ := (hbusy place).1 hleft.was
    exact (List.getElem?_eq_some_iff.1 hpage).1
  have hnot : ¬s.crew.Busy place := fun h => ((hleft.busy place).1 h).2 rfl
  refine ⟨sound_set hleft.sound hq hnot, ?_, fun i => ?_, hleft.world⟩
  · rw [hleft.size, hsize, hq, List.length_set]
  · rw [hleft.busy i, hbusy i]
    by_cases hne : i = place
    · subst hne
      rw [getElem?_set_self hq hplace]
      exact ⟨fun h => absurd rfl h.2, fun ⟨page, hpage⟩ =>
        absurd (Option.some.inj hpage) (hafter page)⟩
    · rw [getElem?_set_other hq hne]
      exact ⟨fun h => h.1, fun h => ⟨h, hne⟩⟩

end Fetchers

variable (decoder) in
omit [Clocked σ] in
/-- What is chosen is possible, and keeps to what the node may reply. -/
theorem Chosen.moved (h : Chosen answers I p m s) :
    (∃ q, Moved decoder p m q) ∧ p.Permits answers m := by
  cases h with
  | turn hstaffed hcovered husing =>
    obtain ⟨x, -, hm⟩ := husing
    obtain ⟨hq, hended⟩ := Party.moved_of_move? decoder hm
    exact ⟨hq, Pipeline.permits_of_ended hended⟩
  | @answer place reply s crew hbusy hsize hexpects hleft hactive hcovered =>
    obtain ⟨page, hpage, hreply⟩ := hexpects
    refine ⟨?_, (Pipeline.permits_answer hpage).2 hreply⟩
    rcases reply with e | txs
    · exact ⟨_, .lost place page e hpage⟩
    · exact ⟨_, .found place page txs hpage⟩

omit [Clocked σ] in
/-- A fetcher that has the turn is covered, and those who stood in line before still do. -/
theorem covered_active {q : Pipeline} {place : Nat} {y : Fetch} (h : Covered p s.wanting s.line)
    (hq : q.fetchers = p.fetchers.set place y) (hactive : s.active = some (.fetcher place)) :
    Covered q s.wanting (s.line.erase place) := by
  refine h.set hq (fun _ => ?_) (fun _ _ hmem => hmem) fun i hi hmem => (List.mem_erase_of_ne hi).2 hmem
  rw [wanting, hactive]
  exact List.mem_cons_self

omit [Clocked σ] in
/-- **Everybody is ready after a move.** -/
theorem Chosen.ready {source : Source σ} {deadline : Deadline} {q : Pipeline}
    (hsearch : ∀ page, (source.search page deadline).Always I (answers page))
    (h : Chosen answers I p m s) (hm : Moved decoder p m q) :
    Ready answers I q (s.accompany source deadline p m) := by
  cases h with
  | turn hstaffed hcovered husing =>
    obtain ⟨x, hactive, hx⟩ := husing
    have hready : Ready answers I p s := ⟨hstaffed, hcovered⟩
    cases hm with
    | passBlock | queueSearch | decode | drop | passOn | forward => exact hready.of_fetchers rfl
    | take place page rest hsearches hfree =>
      obtain rfl := Party.eq_fetcher_of_move? (.inl hx)
      have hq : ({ p.withFetcher place (.asking page) with searches := rest } : Pipeline).fetchers =
        p.fetchers.set place (.asking page) := rfl
      refine ⟨?_, covered_active hcovered hq hactive⟩
      rw [accompany, hsearches]
      exact hstaffed.take hq hfree (hsearch page)
    | leave place hhanding =>
      obtain rfl := Party.eq_fetcher_of_move? (.inr hx)
      have hplace := (List.getElem?_eq_some_iff.1 hhanding).1
      refine ⟨hstaffed.set rfl hplace (fun page hpage => ?_) nofun,
        covered_active hcovered rfl hactive⟩
      rw [hhanding] at hpage
      cases hpage
    | hand place tx txs hhanding hroom =>
      obtain rfl := Party.eq_fetcher_of_move? (.inr hx)
      have hplace := (List.getElem?_eq_some_iff.1 hhanding).1
      refine ⟨hstaffed.set rfl hplace (fun page hpage => ?_) nofun,
        covered_active hcovered rfl hactive⟩
      rw [hhanding] at hpage
      cases hpage
    -- a party never replies in the place of the node
    | found place page txs hasking =>
      have hended := (Party.moved_of_move? decoder hx).2
      simp [Pipeline.ended, hasking, Fetch.pages] at hended
    | lost place page e hasking =>
      have hended := (Party.moved_of_move? decoder hx).2
      simp [Pipeline.ended, hasking, Fetch.pages] at hended
  | answer crew hbusy hsize hexpects hleft hactive hcovered =>
    -- who has just got an answer has the turn, whether it stood in line or not
    have hline {y : Fetch} {q : Pipeline} (hq : q.fetchers = p.fetchers.set _ y) :
        Covered q s.wanting s.line := fun i hi =>
      (covered_active hcovered hq hactive i hi).imp_right List.mem_of_mem_erase
    cases hm with
    | found place page txs hasking =>
      exact ⟨staffed_answered hbusy hsize hleft rfl nofun, hline rfl⟩
    | lost place page e hasking =>
      exact ⟨staffed_answered hbusy hsize hleft rfl nofun, hline rfl⟩

theorem choose_some {source : Source σ} {deadline : Deadline}
    (h : Pipeline.firstOf [goOn p, answer (some (Clocked.now s.world)),
      fun s => s.giveTurn p s.turns, answer none] (s.queueUp p) = (some m, s')) :
    Pipeline.choose source deadline p s = (some m, s'.accompany source deadline p m) := by
  have hnow : Clocked.now (s.queueUp p).world = Clocked.now s.world := rfl
  rw [← hnow] at h
  simp only [Pipeline.choose, modify, modifyGet, MonadStateOf.modifyGet, StateT.modifyGet, bind,
    StateT.bind, get, getThe, MonadStateOf.get, StateT.get, pure, h]
  rfl

theorem choose_none {source : Source σ} {deadline : Deadline}
    (h : Pipeline.firstOf [goOn p, answer (some (Clocked.now s.world)),
      fun s => s.giveTurn p s.turns, answer none] (s.queueUp p) = (none, s')) :
    Pipeline.choose source deadline p s = (none, s') := by
  have hnow : Clocked.now (s.queueUp p).world = Clocked.now s.world := rfl
  rw [← hnow] at h
  simp only [Pipeline.choose, modify, modifyGet, MonadStateOf.modifyGet, StateT.modifyGet, bind,
    StateT.bind, get, getThe, MonadStateOf.get, StateT.get, pure, h]
  rfl

/-- **What is chosen is ready to be done, and if nothing is chosen, all is done.** -/
theorem choose_spec (source : Source σ) (deadline : Deadline) (hable : p.Able) (hI : Timeless I)
    (h : Ready answers I p s) :
    (∃ m s', Pipeline.choose source deadline p s = (some m, s'.accompany source deadline p m) ∧
      Chosen answers I p m s') ∨
    (∃ s', Pipeline.choose source deadline p s = (none, s') ∧ p.isDone = true ∧ I s'.world) := by
  have hchoice := choice_firstOf (s := s.queueUp p) hable h.staffed hI (covered_queueUp h.covered)
    (called_queueUp p s)
  rcases hfirst : Pipeline.firstOf [goOn p, answer (some (Clocked.now (s.queueUp p).world)),
      fun s => s.giveTurn p s.turns, answer none] (s.queueUp p) with ⟨_ | m, s'⟩
  · rw [hfirst] at hchoice
    exact .inr ⟨s', choose_none hfirst, hchoice⟩
  · rw [hfirst] at hchoice
    exact .inl ⟨m, s', choose_some hfirst, hchoice⟩

end Schedule

namespace Pipeline

open Schedule

variable {σ : Type} [Clocked σ] {answers : SearchPage → SearchReply → Prop} {I : σ → Prop}
  {p q : Pipeline} {s : Schedule σ}

/-- Moves that keep to what the node may reply. -/
def Steps (decoder : RawTransaction → Except DecodeError (Measured Transaction))
    (answers : SearchPage → SearchReply → Prop) : Pipeline → Pipeline → Prop :=
  Relation.ReflTransGen fun p q => ∃ m, p.Permits answers m ∧ Moved decoder p m q

/-- **A pipeline that is run comes to its end.** -/
theorem run_steps {source : Source σ} {deadline : Deadline} (hI : Timeless I)
    (hsearch : ∀ page, (source.search page deadline).Always I (answers page)) (hable : p.Able)
    (h : Ready answers I p s) :
    Steps decoder answers p (run decoder (choose source deadline) p s).1 ∧
      (run decoder (choose source deadline) p s).1.isDone = true ∧
      I (run decoder (choose source deadline) p s).2.world := by
  -- along the run: no move, a move that is not possible, or a move and the rest
  fun_induction run decoder (choose source deadline) p s with
  | case1 p s s' hnone =>
    rcases choose_spec source deadline hable hI h with ⟨m, s₁, hchoose, -⟩ | ⟨s₁, hchoose, hdone⟩
    · cases hnone.symm.trans hchoose
    · cases hnone.symm.trans hchoose
      exact ⟨.refl, hdone⟩
  | case2 p s m s' hsome hstep =>
    rcases choose_spec source deadline hable hI h with ⟨m', s₁, hchoose, hchosen⟩ | ⟨s₁, hchoose, -⟩
    · cases hsome.symm.trans hchoose
      obtain ⟨⟨q, hq⟩, -⟩ := hchosen.moved decoder
      rw [hq.step] at hstep
      cases hstep
    · cases hsome.symm.trans hchoose
  | case3 p s m s' hsome q hstep ih =>
    rcases choose_spec source deadline hable hI h with ⟨m', s₁, hchoose, hchosen⟩ | ⟨s₁, hchoose, -⟩
    · cases hsome.symm.trans hchoose
      have hmoved := moved_of_step hstep
      obtain ⟨hsteps, hdone⟩ := ih (hable.step hmoved) (hchosen.ready hsearch hmoved)
      exact ⟨.head ⟨m, (hchosen.moved decoder).2, hmoved⟩ hsteps, hdone⟩
    · cases hsome.symm.trans hchoose

omit [Clocked σ] in
/-- Nobody asks anything when the producer begins, and everybody wants a turn. -/
theorem ready_start (fetchers : Nat) (bs : List Block) {world : σ} (hworld : I world) :
    Ready answers I (start fetchers bs)
      { world, crew := .ofSize (start fetchers bs).fetchers.length, active := some .producer
        turns := (start fetchers bs).parties } where
  staffed := by
    refine ⟨Crew.sound_ofSize _, by simp [Crew.ofSize], fun place => ?_, hworld⟩
    refine ⟨fun hbusy => absurd hbusy (Crew.not_busy_ofSize _ _), ?_⟩
    rintro ⟨page, hpage⟩
    have hmem := List.mem_of_getElem? hpage
    cases List.eq_of_mem_replicate hmem
  covered := by
    rintro place ⟨x, hx, -⟩
    have hplace := (List.getElem?_eq_some_iff.1 hx).1
    refine .inl (List.mem_cons_of_mem _ (List.mem_cons_of_mem _ ?_))
    exact List.mem_map_of_mem (List.mem_range.2 hplace)

variable (decoder) in
/-- **Blocks that are delivered go through a pipeline to its end.** -/
theorem deliver_steps {source : Source σ} {deadline : Deadline} (hI : Timeless I)
    (hsearch : ∀ page, (source.search page deadline).Always I (answers page)) (fetchers : Nat)
    (bs : List Block) {world : σ} (hworld : I world) :
    Steps decoder answers (start fetchers bs)
        (deliver source decoder fetchers bs deadline world).1 ∧
      (deliver source decoder fetchers bs deadline world).1.isDone = true ∧
      I (deliver source decoder fetchers bs deadline world).2 :=
  run_steps hI hsearch (able_start fetchers bs) (ready_start fetchers bs hworld)

end Pipeline

end ChainIndex
