import ChainIndex.Clock

/-!
# Agendas

Who waits for which instant, with numbers for those who wait. The earliest instant comes first; of
several who wait for the same instant, whoever has waited longest comes first.

* `Agenda.add`: somebody else waits.
* `Agenda.next?`: who comes first, and the others.
* `Agenda.toList_next?`, `Agenda.toList_add`: what both do to the order of those who wait.
-/

namespace ChainIndex

/-- Those who wait for the same instant. -/
structure Day where
  instant : Instant
  /-- The first ones, in their order. -/
  early : List Nat := []
  /-- The others, the last one first. -/
  late : List Nat := []

/-- Days, the earliest one first. -/
structure Agenda where
  days : List Day := []

/-- All who wait for an instant, in the order in which they come. -/
def Day.toList (d : Day) : List (Instant × Nat) :=
  (d.early ++ d.late.reverse).map fun who => (d.instant, who)

namespace Agenda

/-- All who wait, in the order in which they come. -/
def toList (a : Agenda) : List (Instant × Nat) :=
  a.days.flatMap Day.toList

def addTo (t : Instant) (who : Nat) : List Day → List Day
  | [] => [{ instant := t, late := [who] }]
  | d :: rest =>
    if t < d.instant then { instant := t, late := [who] } :: d :: rest
    else if t = d.instant then { d with late := who :: d.late } :: rest
    else d :: addTo t who rest

/-- Somebody else waits. -/
def add (a : Agenda) (t : Instant) (who : Nat) : Agenda :=
  { days := addTo t who a.days }

def nextOf? (limit : Option Instant) : List Day → Option (Instant × Nat × List Day)
  | [] => none
  | d :: rest =>
    -- those who came late are put in order once nobody is left before them
    let (early, late) := if d.early.isEmpty then (d.late.reverse, []) else (d.early, d.late)
    match early with
    | [] => nextOf? limit rest
    | who :: early =>
      if limit.any (· < d.instant) then none
      else some (d.instant, who, { d with early, late } :: rest)

/-- Who comes first, and the others, unless the instant comes after a limit. -/
def next? (a : Agenda) (limit : Option Instant) : Option (Instant × Nat × Agenda) :=
  (nextOf? limit a.days).map fun (t, who, days) => (t, who, { days })

theorem flatMap_nextOf? {limit : Option Instant} {before after : List Day} {t : Instant} {who : Nat}
    (h : nextOf? limit before = some (t, who, after)) :
    before.flatMap Day.toList = (t, who) :: after.flatMap Day.toList := by
  induction before with
  | nil => cases h
  | cons d rest ih =>
    rw [nextOf?] at h
    cases he : d.early with
    | nil =>
      simp only [he, List.isEmpty_nil, if_true] at h
      split at h
      · rename_i hl
        simp [Day.toList, ih h, he, hl]
      · rename_i who' early hl
        split at h
        · cases h
        · cases h
          simp [Day.toList, he, hl]
    | cons who' early =>
      simp only [he, List.isEmpty_cons, Bool.false_eq_true, if_false] at h
      split at h
      · cases h
      · cases h
        simp [Day.toList, he]

/-- Whoever comes stood first. -/
theorem toList_next? {a b : Agenda} {limit : Option Instant} {t : Instant} {who : Nat}
    (h : a.next? limit = some (t, who, b)) : a.toList = (t, who) :: b.toList := by
  obtain ⟨w, hw, hb⟩ := Option.map_eq_some_iff.1 h
  obtain ⟨t', who', days⟩ := w
  cases hb
  exact flatMap_nextOf? hw

/-- Whoever is added stands behind those who wait for the same instant. -/
theorem toList_add (a : Agenda) (t : Instant) (who : Nat) :
    ∃ before after, a.toList = before ++ after ∧
      (a.add t who).toList = before ++ (t, who) :: after := by
  unfold toList add
  dsimp only
  induction a.days with
  | nil => exact ⟨[], [], rfl, rfl⟩
  | cons d rest ih =>
    simp only [addTo]
    split
    · exact ⟨[], _, rfl, rfl⟩
    · split
      · rename_i h
        subst h
        exact ⟨d.toList, rest.flatMap Day.toList, rfl, by simp [Day.toList]⟩
      · obtain ⟨before, after, h, h'⟩ := ih
        exact ⟨d.toList ++ before, after, by simp [h], by simp [h']⟩

end Agenda

end ChainIndex
