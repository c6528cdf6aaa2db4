import ChainIndex.Clock

/-!
# Activities

Something that is done in a world which others change meanwhile: it looks at the world, changes it,
and sometimes waits for an instant. Between two waits nobody else gets a word in.

* `Activity.run`: an activity that is alone in the world, from its start to its end.
* `Activity.run_bind`: one activity after the other is run one after the other.
* `Activity.proceed`: an activity as far as it gets before it has to wait.
* `Activity.proceed_later`: what is left of it then is a later part of it.
-/

namespace ChainIndex

inductive Activity (σ α : Type) where
  | done (a : α)
  | look (next : σ → Activity σ α)
  | put (s : σ) (next : Activity σ α)
  | wait (instant : Instant) (next : Activity σ α)

/-- How far an activity got: to its end, or to a wait. -/
inductive Progress (σ α : Type) where
  | ended (a : α)
  | waiting (instant : Instant) (rest : Activity σ α)

namespace Activity

variable {σ α β : Type}

def bind : Activity σ α → (α → Activity σ β) → Activity σ β
  | done a, f => f a
  | look next, f => look fun s => (next s).bind f
  | put s next, f => put s (next.bind f)
  | wait t next, f => wait t (next.bind f)

instance : Monad (Activity σ) where
  pure := done
  bind := bind

instance : MonadStateOf σ (Activity σ) where
  get := look done
  set s := put s (done ())
  modifyGet f := look fun s => put (f s).2 (done (f s).1)

/-- Waits for an instant. -/
def await (t : Instant) : Activity σ Unit :=
  wait t (done ())

variable [Clocked σ]

/-- An activity that is alone in the world. Nothing happens while it waits. -/
def run : Activity σ α → σ → α × σ
  | done a, s => (a, s)
  | look next, s => (next s).run s
  | put s next, _ => next.run s
  | wait t next, s => next.run (Clocked.reach t s)

theorem run_bind (a : Activity σ α) (f : α → Activity σ β) (s : σ) :
    (a >>= f).run s = (f (a.run s).1).run (a.run s).2 := by
  show (a.bind f).run s = _
  induction a generalizing s with
  | done a => rfl
  | look next ih => exact ih s s
  | put u next ih => exact ih u
  | wait t next ih => exact ih (Clocked.reach t s)

/-- An activity as far as it gets. Waiting for an instant that has passed takes no time. -/
def proceed : Activity σ α → σ → Progress σ α × σ
  | done a, s => (.ended a, s)
  | look next, s => (next s).proceed s
  | put s next, _ => next.proceed s
  | wait t next, s => if Clocked.now s < t then (.waiting t next, s) else next.proceed s

/-- What an activity may still be after its first step. -/
inductive Part : Activity σ α → Activity σ α → Prop where
  | look (next : σ → Activity σ α) (s : σ) : Part (next s) (look next)
  | put (s : σ) (next : Activity σ α) : Part next (put s next)
  | wait (t : Instant) (next : Activity σ α) : Part next (wait t next)

omit [Clocked σ] in
theorem part_wf : WellFounded (Part (σ := σ) (α := α)) := by
  refine ⟨fun a => ?_⟩
  induction a with
  | done a => exact ⟨_, fun _ h => nomatch h⟩
  | look next ih => exact ⟨_, fun _ h => by cases h; exact ih _⟩
  | put s next ih => exact ⟨_, fun _ h => by cases h; exact ih⟩
  | wait t next ih => exact ⟨_, fun _ h => by cases h; exact ih⟩

/-- Some steps later. -/
def Later : Activity σ α → Activity σ α → Prop :=
  Relation.TransGen Part

omit [Clocked σ] in
theorem later_wf : WellFounded (Later (σ := σ) (α := α)) :=
  part_wf.transGen

theorem proceed_later {a rest : Activity σ α} {s s' : σ} {t : Instant}
    (h : a.proceed s = (.waiting t rest, s')) : Later rest a := by
  induction a generalizing s with
  | done a => simp [proceed] at h
  | look next ih => exact .tail (ih s h) (.look next s)
  | put u next ih => exact .tail (ih h) (.put u next)
  | wait u next ih =>
    rw [proceed] at h
    split at h
    · cases h
      exact .single (.wait _ _)
    · exact .tail (ih h) (.wait u next)

end Activity

end ChainIndex
