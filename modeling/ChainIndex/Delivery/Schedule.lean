import ChainIndex.Activity.Crew
import ChainIndex.Delivery.Pipeline
import ChainIndex.Delivery.Source

/-!
# Running the pipeline on a clock

Everything but the questions to the node takes no time. One party at a time has the turn, and keeps
it as long as it can go on. Fetchers that have to wait stand in line: a search goes to the first of
them that is free, and room for a transaction to the first that has one. Whoever can go on again
queues up for a turn. The producer, who also forwards, has a turn when nobody else wants one, and the
clock goes on when the producer has nothing to do either.

* `Party.move?`: what a party does next, if it need not wait.
* `Pipeline.choose`: what happens next.
* `Pipeline.deliver`: the pipeline of some blocks, run to its end.
-/

namespace ChainIndex

/-- Those who move things through a pipeline. -/
inductive Party where
  | producer
  | decoder
  | fetcher (place : Nat)
deriving DecidableEq, Repr

/-- The surroundings of a running pipeline. -/
structure Schedule (σ : Type) where
  world : σ
  /-- The questions that the fetchers wait for. -/
  crew : Crew σ (Except NodeError (List RawTransaction))
  /-- Who has the turn. -/
  active : Option Party := none
  /-- Who wants a turn, the first one first. -/
  turns : List Party := []
  /-- The fetchers that wait, but not for an answer, the one that has waited longest first. -/
  line : List Nat := []

namespace Pipeline

/-- Everybody but the producer. -/
def parties (p : Pipeline) : List Party :=
  .decoder :: (List.range p.fetchers.length).map .fetcher

/-- The fetchers of a kind that stand in line. -/
def standing (p : Pipeline) (line : List Nat) (kind : Fetch → Bool) : List Nat :=
  line.filter fun place => p.fetchers[place]?.any kind

/-- How many fetchers of a kind stand in line before a place, or at all if that does not stand
there. -/
def ahead (p : Pipeline) (line : List Nat) (kind : Fetch → Bool) (place : Nat) : Nat :=
  (p.standing (line.takeWhile (· != place)) kind).length

/-- The fetchers in line that need not wait any more: one that is free, if there is a search, and as
many with a transaction as there is room for. -/
def called (p : Pipeline) (line : List Nat) : List Nat :=
  (p.standing line Fetch.isFree).take (min p.searches.length 1) ++
    (p.standing line Fetch.isHanding).take p.rawRoom

end Pipeline

namespace Party

/-- What a party does next, if it need not wait for something or for somebody before it in line. -/
def move? (p : Pipeline) (line : List Nat) : Party → Option Pipeline.Move
  | producer =>
    if !p.out.isEmpty then some .forward
    else
      match p.plan with
      | .search _ :: _ => if p.hasSearchRoom then some .produce else none
      | .pass _ :: _ => if p.hasRoom then some .produce else none
      | [] => none
  | decoder =>
    if p.decoded.isSome then if p.hasRoom then some .pass else none
    else if p.raw.isEmpty then none
    else some .decode
  | fetcher place =>
    match p.fetchers[place]? with
    | some .free =>
      if !p.searches.isEmpty && p.ahead line Fetch.isFree place == 0 then some (.take place)
      else none
    | some (.handing []) => some (.hand place)
    | some (.handing _) =>
      if p.ahead line Fetch.isHanding place < p.rawRoom then some (.hand place) else none
    | some (.asking _) | none => none

/-- The line after a party has found that it has to wait. -/
def stand (p : Pipeline) (line : List Nat) : Party → List Nat
  | producer | decoder => line
  | fetcher place =>
    match p.fetchers[place]? with
    | some (.asking _) | none => line
    | some _ => if line.contains place then line else line ++ [place]

end Party

namespace Schedule

variable {σ : Type}

/-- Everybody who can go on and does not want a turn yet, or have it, does so. -/
def queueUp (p : Pipeline) (s : Schedule σ) : Schedule σ :=
  let called := (p.called s.line).map Party.fetcher
  let ready := if (Party.decoder.move? p s.line).isSome then .decoder :: called else called
  { s with turns := s.turns ++ ready.filter fun x => s.active != some x && !s.turns.contains x }

/-- Whoever has the turn goes on, or gives it up. -/
def goOn (p : Pipeline) (s : Schedule σ) : Option Pipeline.Move × Schedule σ :=
  match s.active with
  | none => (none, s)
  | some x =>
    match x.move? p s.line with
    | some m => (some m, s)
    | none => (none, { s with active := none, line := x.stand p s.line })

/-- The turn goes to the first of those who want it and can use it, or else to the producer. -/
def giveTurn (p : Pipeline) (s : Schedule σ) : List Party → Option Pipeline.Move × Schedule σ
  | [] => (Party.producer.move? p s.line, { s with active := some .producer, turns := [] })
  | x :: rest =>
    match x.move? p s.line with
    | some m => (some m, { s with active := some x, turns := rest })
    | none => giveTurn p { s with line := x.stand p s.line } rest

/-- What goes along with a move: a fetcher that takes a search asks the node. -/
def accompany (source : Source σ) (deadline : Deadline) (p : Pipeline) (s : Schedule σ) :
    Pipeline.Move → Schedule σ
  | .take place =>
    { s with
      line := s.line.erase place
      crew := p.searches.head?.elim s.crew fun page =>
        s.crew.start place (source.search page deadline) }
  | .hand place => { s with line := s.line.erase place }
  | _ => s

variable [Clocked σ]

/-- Questions that have to wait no longer than up to a limit go on, until one is answered. The turn
goes to the fetcher that gets the answer. -/
def answer (limit : Option Instant) (s : Schedule σ) : Option Pipeline.Move × Schedule σ :=
  match s.crew.next limit s.world with
  | (some (place, reply), crew, world) =>
    (some (.answer place reply), { s with crew, world, active := some (.fetcher place) })
  | (none, crew, world) => (none, { s with crew, world })

end Schedule

namespace Pipeline

variable {σ : Type} [Clocked σ]

/-- The first move that somebody makes. -/
def firstOf : List (StateM (Schedule σ) (Option Move)) → StateM (Schedule σ) (Option Move)
  | [] => return none
  | choice :: rest => do
    match ← choice with
    | some m => return some m
    | none => firstOf rest

/-- What happens next: the turn is used, answers arrive that are due, others get the turn, and the
next answer is awaited. -/
def choose (source : Source σ) (deadline : Deadline) (p : Pipeline) :
    StateM (Schedule σ) (Option Move) := do
  modify (·.queueUp p)
  let now := Clocked.now (← get).world
  let m ← firstOf [Schedule.goOn p, Schedule.answer (some now), fun s => s.giveTurn p s.turns,
    Schedule.answer none]
  if let some m := m then modify (·.accompany source deadline p m)
  return m

/-- The pipeline of some blocks, run to its end. The producer begins. -/
def deliver (source : Source σ)
    (decoder : RawTransaction → Except DecodeError (Measured Transaction)) (fetchers : Nat)
    (bs : List Block) (deadline : Deadline) : StateM σ Pipeline := fun world =>
  let p := start fetchers bs
  let crew := .ofSize p.fetchers.length
  let s : Schedule σ := { world, crew, active := some .producer, turns := p.parties }
  let (p, s) := run decoder (choose source deadline) p s
  (p, s.world)

end Pipeline

end ChainIndex
