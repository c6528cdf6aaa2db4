import ChainIndex.Delivery.Schedule
import ChainIndex.Proofs.PipelineProgress

/-!
# Nobody in line is forgotten

The parties of a pipeline take turns, and fetchers that have to wait stand in line. Each move that a
party makes is one that the pipeline can make (`moved_of_move?`). Whoever is not asking the node wants a
turn or stands in line (`Covered`), and those in line are called when they can go on (`Called`). So **if
nobody wants a turn and nobody asks the node, nothing is left to do** (`isDone_of_called`).
-/

namespace ChainIndex

open Pipeline (Moved Able)

variable {decoder : RawTransaction → Except DecodeError (Measured Transaction)}

/-! ## The moves of the parties -/

namespace Party

variable {p : Pipeline} {line : List Nat} {m : Pipeline.Move}

variable (decoder) in
/-- **A party only does what is possible**, and never replies in the place of the node. -/
theorem moved_of_move? {x : Party} (h : x.move? p line = some m) :
    (∃ q, Moved decoder p m q) ∧ p.ended m = [] := by
  cases x with
  | producer =>
    rw [move?] at h
    split at h
    · rename_i hout
      cases h
      rcases ho : p.out with _ | ⟨x, rest⟩
      · simp [ho] at hout
      · exact ⟨⟨_, .forward x rest ho⟩, rfl⟩
    · split at h
      · rename_i s rest hplan
        split at h
        · rename_i hroom
          cases h
          exact ⟨⟨_, .queueSearch s rest hplan hroom⟩, rfl⟩
        · cases h
      · rename_i b rest hplan
        split at h
        · rename_i hroom
          cases h
          exact ⟨⟨_, .passBlock b rest hplan hroom⟩, rfl⟩
        · cases h
      · cases h
  | decoder =>
    rw [move?] at h
    split at h
    · rename_i hdecoded
      obtain ⟨t, ht⟩ := Option.isSome_iff_exists.1 hdecoded
      split at h
      · rename_i hroom
        cases h
        exact ⟨⟨_, .passOn t ht hroom⟩, rfl⟩
      · cases h
    · rename_i hdecoded
      have hnone : p.decoded = none := by simpa using hdecoded
      split at h
      · cases h
      · rename_i hraw
        cases h
        rcases hr : p.raw with _ | ⟨tx, rest⟩
        · simp [hr] at hraw
        · rcases ht : decoder tx with e | t
          · exact ⟨⟨_, .drop tx rest e hnone hr ht⟩, rfl⟩
          · exact ⟨⟨_, .decode tx rest t hnone hr ht⟩, rfl⟩
  | fetcher place =>
    rw [move?] at h
    split at h
    · rename_i hfree
      split at h
      · rename_i hfirst
        cases h
        rcases hs : p.searches with _ | ⟨s, rest⟩
        · simp [hs] at hfirst
        · exact ⟨⟨_, .take place s rest hs hfree⟩, rfl⟩
      · cases h
    · rename_i hhanding
      cases h
      exact ⟨⟨_, .leave place hhanding⟩, rfl⟩
    · rename_i txs hnil hhanding
      split at h
      · rename_i hahead
        cases h
        rcases txs with _ | ⟨tx, txs⟩
        · exact absurd rfl hnil
        · exact ⟨⟨_, .hand place tx txs hhanding (by omega)⟩, rfl⟩
      · cases h
    · cases h
    · cases h

/-- Only a fetcher itself takes searches and hands transactions over. -/
theorem eq_fetcher_of_move? {x : Party} {place : Nat}
    (h : x.move? p line = some (.take place) ∨ x.move? p line = some (.hand place)) :
    x = .fetcher place := by
  cases x with
  | producer =>
    simp only [move?] at h
    split at h
    · simp at h
    · split at h <;> (try split at h) <;> simp at h
  | decoder =>
    simp only [move?] at h
    split at h
    · split at h <;> simp at h
    · split at h <;> simp at h
  | fetcher place' =>
    simp only [move?] at h
    split at h
    · split at h <;> simp_all
    · simp_all
    · split at h <;> simp_all
    · simp at h
    · simp at h

end Party

/-! ## Standing in line -/

namespace Pipeline

variable {p : Pipeline} {line : List Nat} {kind : Fetch → Bool} {place : Nat}

/-- A kind of fetchers the first of which in line can go on. -/
def Eager (p : Pipeline) (kind : Fetch → Bool) : Prop :=
  kind = Fetch.isFree ∧ p.searches ≠ [] ∨ kind = Fetch.isHanding ∧ 0 < p.rawRoom

/-- There is a fetcher of a kind at a place. -/
def Stands (p : Pipeline) (kind : Fetch → Bool) (place : Nat) : Prop :=
  p.fetchers[place]?.any kind = true

theorem stands_iff : p.Stands kind place ↔ ∃ x, p.fetchers[place]? = some x ∧ kind x = true := by
  rw [Stands]
  cases p.fetchers[place]? <;> simp

theorem Eager.move (h : p.Eager kind) (hplace : p.Stands kind place)
    (hahead : p.ahead line kind place = 0) :
    ∃ m, (Party.fetcher place).move? p line = some m := by
  obtain ⟨x, hx, hkind⟩ := stands_iff.1 hplace
  -- whoever is first takes a search, or hands over a transaction
  rcases h with ⟨rfl, hsearches⟩ | ⟨rfl, hroom⟩
  · obtain rfl := Fetch.eq_free hkind
    exact ⟨.take place, by simp [Party.move?, hx, hsearches, hahead]⟩
  · cases x with
    | free => cases hkind
    | asking s => cases hkind
    | handing txs =>
      rcases txs with _ | ⟨tx, txs⟩
      · exact ⟨.hand place, by simp [Party.move?, hx]⟩
      · exact ⟨.hand place, by simp [Party.move?, hx, hahead, hroom]⟩

/-- Nobody stands before the first one. -/
theorem filter_takeWhile_eq_nil {P : Nat → Bool} {x : Nat} {rest : List Nat} :
    ∀ {xs : List Nat}, xs.filter P = x :: rest → (xs.takeWhile (· != x)).filter P = []
  | [], h => by cases h
  | y :: ys, h => by
    by_cases hy : P y = true
    · rw [List.filter_cons_of_pos hy] at h
      cases h
      simp
    · rw [List.filter_cons_of_neg hy] at h
      have hx : P x = true := (List.mem_filter.1 (h ▸ List.mem_cons_self)).2
      have hne : y ≠ x := fun heq => hy (heq ▸ hx)
      rw [List.takeWhile_cons_of_pos (by simpa using hne), List.filter_cons_of_neg hy]
      exact filter_takeWhile_eq_nil h

theorem ahead_first {rest : List Nat} (h : p.standing line kind = place :: rest) :
    p.ahead line kind place = 0 := by
  rw [ahead, standing, filter_takeWhile_eq_nil h]
  rfl

theorem ahead_nobody (h : p.standing line kind = []) : p.ahead line kind place = 0 := by
  have hnone : p.standing (line.takeWhile (· != place)) kind = [] := by
    have hsub := (List.takeWhile_sublist (l := line) (· != place)).filter
      (fun q => p.fetchers[q]?.any kind)
    rw [standing] at h
    rw [h] at hsub
    exact List.sublist_nil.1 hsub
  rw [ahead, hnone]
  rfl

/-- Who stands in line stays there, and before those who come. -/
theorem stand_append (p : Pipeline) (line : List Nat) (x : Party) :
    x.stand p line = line ∨ ∃ place, x = .fetcher place ∧ x.stand p line = line ++ [place] := by
  cases x with
  | producer => exact .inl rfl
  | decoder => exact .inl rfl
  | fetcher place =>
    rw [Party.stand]
    split
    · exact .inl rfl
    · exact .inl rfl
    · split
      · exact .inl rfl
      · exact .inr ⟨place, rfl, rfl⟩

theorem mem_stand_of_mem {x : Party} (h : place ∈ line) : place ∈ x.stand p line := by
  rcases stand_append p line x with hx | ⟨q, -, hx⟩
  · rw [hx]
    exact h
  · rw [hx]
    exact List.mem_append_left _ h

/-- The fetcher at a place does not wait for an answer. -/
def AtHome (p : Pipeline) (place : Nat) : Prop :=
  ∃ x, p.fetchers[place]? = some x ∧ ∀ s, x ≠ .asking s

/-- A fetcher at home stands in line after it had to wait. -/
theorem AtHome.mem_stand (h : p.AtHome place) : place ∈ (Party.fetcher place).stand p line := by
  obtain ⟨x, hx, hasking⟩ := h
  rw [Party.stand, hx]
  split
  · rename_i s heq
    cases heq
    exact absurd rfl (hasking s)
  · rename_i heq
    cases heq
  · split
    · rename_i hmem
      simpa using hmem
    · exact List.mem_append_right _ (List.mem_singleton_self place)

theorem standing_append (p : Pipeline) (line line' : List Nat) (kind : Fetch → Bool) :
    p.standing (line ++ line') kind = p.standing line kind ++ p.standing line' kind :=
  List.filter_append _ _

end Pipeline

/-! ## Nobody is forgotten -/

namespace Schedule

variable {σ : Type} {p : Pipeline} {s s' : Schedule σ} {m : Pipeline.Move} {x : Party}
  {turns : List Party} {line : List Nat}

/-- Whoever has the turn or wants it. -/
def wanting (s : Schedule σ) : List Party :=
  s.active.toList ++ s.turns

/-- Fetchers at home want a turn or stand in line. -/
def Covered (p : Pipeline) (turns : List Party) (line : List Nat) : Prop :=
  ∀ place, p.AtHome place → .fetcher place ∈ turns ∨ place ∈ line

/-- The decoder wants a turn if it can go on, and so does the first one in line. -/
structure Called (p : Pipeline) (turns : List Party) (line : List Nat) : Prop where
  decoder : Party.decoder.move? p line ≠ none → .decoder ∈ turns
  first : ∀ kind, p.Eager kind → ∀ first rest, p.standing line kind = first :: rest →
    .fetcher first ∈ turns

/-- Whoever has to wait stands in line after that. -/
theorem Covered.stand (h : Covered p (x :: turns) line) : Covered p turns (x.stand p line) := by
  intro place hplace
  rcases h place hplace with hmem | hmem
  · rcases List.mem_cons.1 hmem with rfl | hmem
    · exact .inr hplace.mem_stand
    · exact .inl hmem
  · exact .inr (Pipeline.mem_stand_of_mem hmem)

/-- A fetcher that has to wait is not the first one in line, nor would it be if it joined the line. -/
theorem standing_stand {kind : Fetch → Bool} (heager : p.Eager kind) (hwait : x.move? p line = none)
    {first : Nat} {rest : List Nat} (h : p.standing (x.stand p line) kind = first :: rest) :
    x ≠ .fetcher first ∧ ∃ rest', p.standing line kind = first :: rest' := by
  have hstands : p.Stands kind first :=
    (List.mem_filter.1 (h ▸ List.mem_cons_self : first ∈ p.standing _ kind)).2
  have hbehind : ∀ place, x = .fetcher place → p.Stands kind place →
      p.ahead line kind place ≠ 0 := by
    rintro place rfl hplace hahead
    obtain ⟨m, hm⟩ := heager.move hplace hahead
    rw [hm] at hwait
    cases hwait
  have hfirst : ∃ rest', p.standing line kind = first :: rest' := by
    rcases Pipeline.stand_append p line x with hx | ⟨place, rfl, hx⟩
    · exact ⟨rest, hx ▸ h⟩
    · rw [hx, Pipeline.standing_append] at h
      rcases hs : p.standing line kind with _ | ⟨y, ys⟩
      · -- nobody stood in line, so whoever joins it could have gone on
        rw [hs, List.nil_append] at h
        have hmem : first ∈ [place] :=
          (List.mem_filter.1 (h ▸ List.mem_cons_self : first ∈ p.standing _ kind)).1
        obtain rfl := List.mem_singleton.1 hmem
        exact absurd (Pipeline.ahead_nobody hs) (hbehind _ rfl hstands)
      · rw [hs, List.cons_append] at h
        cases h
        exact ⟨ys, rfl⟩
  -- so it was the first one before, and could have gone on if it had the turn
  obtain ⟨rest', hrest⟩ := hfirst
  exact ⟨fun hx => hbehind first hx hstands (Pipeline.ahead_first hrest), rest', hrest⟩

theorem Called.stand (h : Called p (x :: turns) line) (hwait : x.move? p line = none) :
    Called p turns (x.stand p line) where
  decoder := by
    intro hmove
    rcases List.mem_cons.1 (h.decoder hmove) with rfl | hmem
    · exact absurd hwait hmove
    · exact hmem
  first := by
    intro kind heager first rest hfirst
    obtain ⟨hne, rest', hrest⟩ := standing_stand heager hwait hfirst
    rcases List.mem_cons.1 (h.first kind heager first rest' hrest) with hx | hmem
    · exact absurd hx.symm hne
    · exact hmem

/-- Nobody who would go on as the first one in line stands there, so nobody is there at all. -/
theorem not_stands (hcovered : Covered p [] line) (hcalled : Called p [] line)
    (hhome : ∀ (place : Nat) (x : Fetch), p.fetchers[place]? = some x → p.AtHome place) {kind : Fetch → Bool}
    (heager : p.Eager kind) (place : Nat) : ¬p.Stands kind place := by
  intro hstands
  obtain ⟨x, hx, -⟩ := Pipeline.stands_iff.1 hstands
  have hmem : place ∈ line :=
    (hcovered place (hhome place x hx)).resolve_left List.not_mem_nil
  -- the first one of its kind would want a turn, but nobody does
  rcases hs : p.standing line kind with _ | ⟨first, rest⟩
  · have hin : place ∈ p.standing line kind := List.mem_filter.2 ⟨hmem, hstands⟩
    rw [hs] at hin
    exact absurd hin List.not_mem_nil
  · exact absurd (hcalled.first kind heager first rest hs) List.not_mem_nil

/-- **If nobody asks, nobody wants a turn and nobody who could go on is in line, all is done.** -/
theorem isDone_of_called (hable : p.Able) (hcovered : Covered p [] line)
    (hcalled : Called p [] line) (hproducer : Party.producer.move? p line = none)
    (hhome : ∀ (place : Nat) (x : Fetch), p.fetchers[place]? = some x → p.AtHome place) : p.isDone = true := by
  -- from the receiver back to the plan: each stage could go on if it held anything
  have hout : p.out = [] := by
    rcases hout : p.out with _ | ⟨x, rest⟩
    · rfl
    · simp [Party.move?, hout] at hproducer
  have hdecoder : Party.decoder.move? p line = none := by
    by_contra hmove
    exact absurd (hcalled.decoder hmove) List.not_mem_nil
  have hdecoded : p.decoded = none := by
    rcases hdecoded : p.decoded with _ | t
    · rfl
    · simp [Party.move?, hdecoded, hable.hasRoom hout] at hdecoder
  have hraw : p.raw = [] := by
    rcases hraw : p.raw with _ | ⟨tx, rest⟩
    · rfl
    · simp [Party.move?, hdecoded, hraw] at hdecoder
  have hfree : ∀ (place : Nat) (x : Fetch), p.fetchers[place]? = some x → x = .free := by
    intro place x hx
    obtain ⟨y, hy, hasking⟩ := hhome place x hx
    rw [hx] at hy
    cases hy
    cases x with
    | free => rfl
    | asking s => exact absurd rfl (hasking s)
    | handing txs =>
      have heager : p.Eager Fetch.isHanding := .inr ⟨rfl, hable.rawRoom hraw⟩
      exact absurd (Pipeline.stands_iff.2 ⟨_, hx, rfl⟩)
        (not_stands hcovered hcalled hhome heager place)
  have hsearches : p.searches = [] := by
    by_contra hne
    have hzero := List.getElem?_eq_getElem hable.fetchers
    rw [hfree 0 _ hzero] at hzero
    have heager : p.Eager Fetch.isFree := .inl ⟨rfl, hne⟩
    exact absurd (Pipeline.stands_iff.2 ⟨_, hzero, rfl⟩)
      (not_stands hcovered hcalled hhome heager 0)
  have hplan : p.plan = [] := by
    rcases hplan : p.plan with _ | ⟨job, rest⟩
    · rfl
    · cases job with
      | pass b => simp [Party.move?, hout, hplan, hable.hasRoom hout] at hproducer
      | search s => simp [Party.move?, hout, hplan, hable.hasSearchRoom hsearches] at hproducer
  have hall : p.fetchers.all Fetch.isFree = true := by
    rw [List.all_eq_true]
    intro x hx
    obtain ⟨place, hplace⟩ := List.mem_iff_getElem?.1 hx
    rw [hfree place x hplace]
    rfl
  simp [Pipeline.isDone, hplan, hsearches, hall, hraw, hdecoded, hout]

end Schedule

end ChainIndex
