import ChainIndex.Activity.Agenda
import ChainIndex.Activity.Basic

/-!
# Several activities on one clock

A crew has places, and at each of them at most one activity that waits for an instant. The clock goes
on to the earliest of these instants; of several activities that wait for the same one, the one that
has waited longest goes first. An activity begins by waiting for the start of time.

* `Crew.start`: another activity begins, at a place of its own.
* `Crew.next`: the next activity that comes to its end.
* `Crew.finish`: all activities up to their ends, and their results as they arrive.
-/

namespace ChainIndex

structure Crew (σ α : Type) where
  /-- What is left to do at each place. -/
  places : Array (Option (Activity σ α))
  /-- Which place waits for which instant. -/
  agenda : Agenda := {}

namespace Crew

variable {σ α : Type}

/-! ## How a crew gets on -/

/-- What may become of a place when its activity goes on. -/
inductive Onward : Option (Activity σ α) → Option (Activity σ α) → Prop where
  | ended (a : Activity σ α) : Onward none (some a)
  | later {a b : Activity σ α} (h : b.Later a) : Onward (some b) (some a)

theorem acc_onward_none : Acc (Onward (σ := σ) (α := α)) none :=
  ⟨_, fun _ h => nomatch h⟩

theorem onward_wf : WellFounded (Onward (σ := σ) (α := α)) := by
  refine ⟨fun x => ?_⟩
  cases x with
  | none => exact acc_onward_none
  | some a =>
    induction Activity.later_wf.apply a with
    | intro a _ ih =>
      refine ⟨_, fun y hy => ?_⟩
      cases hy with
      | ended => exact acc_onward_none
      | later hb => exact ih _ hb

/-- One of the places goes onward. -/
def OneOnward (xs ys : List (Option (Activity σ α))) : Prop :=
  ∃ (i : Nat) (x y : Option (Activity σ α)), ys[i]? = some y ∧ Onward x y ∧ xs = ys.set i x

theorem acc_oneOnward_cons {x : Option (Activity σ α)} {xs : List (Option (Activity σ α))}
    (hx : Acc Onward x) (hxs : Acc OneOnward xs) : Acc OneOnward (x :: xs) := by
  induction hx generalizing xs with
  | intro x _ ihx =>
    induction hxs with
    | intro xs h ihxs =>
      refine ⟨_, fun ys hys => ?_⟩
      obtain ⟨i, y, z, hz, hyz, rfl⟩ := hys
      cases i with
      | zero =>
        simp only [List.getElem?_cons_zero, Option.some.injEq] at hz
        subst hz
        exact ihx y hyz ⟨xs, h⟩
      | succ i => exact ihxs _ ⟨i, y, z, hz, hyz, rfl⟩

theorem oneOnward_wf : WellFounded (OneOnward (σ := σ) (α := α)) := by
  refine ⟨fun xs => ?_⟩
  induction xs with
  | nil => exact ⟨_, fun _ ⟨_, _, _, h, _⟩ => by simp at h⟩
  | cons x xs ih => exact acc_oneOnward_cons (onward_wf.apply x) ih

/-! ## Activities begin and go on -/

/-- A crew with so many free places. -/
def ofSize (n : Nat) : Crew σ α :=
  { places := Array.replicate n none }

/-- An activity at a place waits for an instant. -/
def wait (c : Crew σ α) (place : Nat) (t : Instant) (rest : Activity σ α) : Crew σ α :=
  { places := c.places.setIfInBounds place (some rest), agenda := c.agenda.add t place }

/-- A place becomes free. -/
def leave (c : Crew σ α) (place : Nat) : Crew σ α :=
  { c with places := c.places.setIfInBounds place none }

/-- Another activity begins; it goes on before all others. -/
def start (c : Crew σ α) (place : Nat) (a : Activity σ α) : Crew σ α :=
  c.wait place 0 a

/-- A crew of activities that all begin now, in their order. -/
def ofList (as : List (Activity σ α)) : Crew σ α :=
  as.zipIdx.foldl (fun c a => c.start a.2 a.1) (ofSize as.length)

variable [Clocked σ]

/-- The activity that comes first goes on, to its end or to another wait, unless its instant comes
after a limit. -/
def advance? (limit : Option Instant) (c : Crew σ α) (s : σ) :
    Option (Option (Nat × α) × Crew σ α × σ) := do
  let (t, place, agenda) ← c.agenda.next? limit
  match c.places[place]? with
  | some (some a) =>
    let c := { c with agenda }
    match a.proceed (Clocked.reach t s) with
    | (.ended result, s) => some (some (place, result), c.leave place, s)
    | (.waiting t rest, s) => some (none, c.wait place t rest, s)
  | _ => none

theorem advance?_onward {limit : Option Instant} {c c' : Crew σ α} {s s' : σ}
    {r : Option (Nat × α)} (h : c.advance? limit s = some (r, c', s')) :
    OneOnward c'.places.toList c.places.toList := by
  obtain ⟨⟨t, place, agenda⟩, _, h⟩ := Option.bind_eq_some_iff.1 h
  dsimp only at h
  split at h
  · rename_i a ha
    rw [← Array.getElem?_toList] at ha
    split at h
    · cases h
      exact ⟨place, _, _, ha, .ended a, by simp [leave]⟩
    · rename_i hp
      cases h
      exact ⟨place, _, _, ha, .later (Activity.proceed_later hp), by simp [wait]⟩
  · cases h

/-- The next activity that comes to its end, its place and its result. The clock does not go beyond
the limit. -/
def next (limit : Option Instant) (c : Crew σ α) (s : σ) : Option (Nat × α) × Crew σ α × σ :=
  match _h : c.advance? limit s with
  | none => (none, c, s)
  | some (some r, c, s) => (some r, c, s)
  | some (none, c, s) => next limit c s
termination_by oneOnward_wf.wrap c.places.toList
decreasing_by exact advance?_onward _h

theorem next_onward {limit : Option Instant} {c c' : Crew σ α} {s s' : σ} {r : Nat × α}
    (h : c.next limit s = (some r, c', s')) :
    Relation.TransGen OneOnward c'.places.toList c.places.toList := by
  fun_induction next limit c s with
  | case1 => simp at h
  | case2 c s r c1 s1 ha =>
    cases h
    exact .single (advance?_onward ha)
  | case3 c s c1 s1 ha ih => exact .tail (ih h) (advance?_onward ha)

/-- All activities of a crew up to their ends, and their results as they arrive. -/
def finish (c : Crew σ α) (s : σ) : List (Nat × α) × σ :=
  match _h : c.next none s with
  | (some r, rest, s) =>
    let (others, s) := finish rest s
    (r :: others, s)
  | (none, _, s) => ([], s)
termination_by oneOnward_wf.transGen.wrap c.places.toList
decreasing_by exact next_onward _h

end Crew

end ChainIndex
