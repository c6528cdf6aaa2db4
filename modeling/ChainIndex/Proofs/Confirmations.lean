import ChainIndex.Proofs.Storing
import Mathlib.Tactic.Tauto

/-!
# Heights are confirmed one by one

A store in memory goes through the blocks that it is to confirm in their order. Each height is marked at
once if its block is there, and the first block that is not there ends the matter. So a failure undoes
nothing: what stood in front of that block is confirmed.

* `MemoryStore.confirm_eq`: what is confirmed, whether it ends well or not.
* `MemoryStore.Reachable.ascending`: confirmed heights stand in their order, each of them once.
* `MemoryStore.confirmed_before_failure`: **a failed confirmation confirms all blocks in front of the first
  one that is not stored**, and leaves the store as it was just if they were confirmed before.
-/

namespace ChainIndex.MemoryStore

/-- There is a block of this one's height. -/
def stores (m : MemoryStore) (b : Block) : Bool :=
  (m.block? b.height).isSome

/-- The blocks in front of the first one that is not stored. -/
def confirmable (m : MemoryStore) (bs : List Block) : List Block :=
  bs.takeWhile m.stores

/-- The heights with those of the blocks among them. -/
def placeAll (bs : List Block) (hs : List Height) : List Height :=
  bs.foldl (fun hs b => place b.height hs) hs

variable {m : MemoryStore} {b : Block} {bs : List Block} {h k : Height} {hs : List Height}

/-! ## Heights in their order -/

theorem mem_place_iff : k ∈ place h hs ↔ k = h ∨ k ∈ hs := by
  refine ⟨mem_place, fun hk => ?_⟩
  induction hs with
  | nil => simpa [place] using hk
  | cons x rest ih =>
    unfold place
    split
    · rename_i heq
      rcases hk with rfl | hk
      · exact heq ▸ List.mem_cons_self
      · exact hk
    · split
      · exact List.mem_cons.2 hk
      · rcases hk with rfl | hk
        · exact List.mem_cons_of_mem x (ih (.inl rfl))
        · rcases List.mem_cons.1 hk with rfl | hk
          · exact List.mem_cons_self
          · exact List.mem_cons_of_mem x (ih (.inr hk))

theorem mem_placeAll_iff : k ∈ placeAll bs hs ↔ k ∈ hs ∨ ∃ b ∈ bs, b.height = k := by
  induction bs generalizing hs with
  | nil => simp [placeAll]
  | cons b rest ih =>
    have hstep : placeAll (b :: rest) hs = placeAll rest (place b.height hs) := rfl
    rw [hstep, ih, mem_place_iff, List.exists_mem_cons_iff]
    tauto

theorem place_ascending (hsorted : hs.Pairwise (· < ·)) : (place h hs).Pairwise (· < ·) := by
  induction hs with
  | nil => exact List.pairwise_singleton _ h
  | cons x rest ih =>
    obtain ⟨hx, hrest⟩ := List.pairwise_cons.1 hsorted
    unfold place
    split
    · exact hsorted
    · rename_i hne
      split
      · rename_i hlt
        refine List.pairwise_cons.2 ⟨fun y hy => ?_, hsorted⟩
        rcases List.mem_cons.1 hy with rfl | hy
        · exact hlt
        · exact UInt64.lt_trans hlt (hx y hy)
      · rename_i hle
        refine List.pairwise_cons.2 ⟨fun y hy => ?_, ih hrest⟩
        rcases mem_place hy with rfl | hy
        · exact (UInt64.lt_or_lt_of_ne hne).resolve_left hle
        · exact hx y hy

theorem placeAll_ascending (hsorted : hs.Pairwise (· < ·)) : (placeAll bs hs).Pairwise (· < ·) := by
  induction bs generalizing hs with
  | nil => exact hsorted
  | cons b rest ih => exact ih (place_ascending hsorted)

/-- A height that is there already changes nothing. -/
theorem place_of_mem (hsorted : hs.Pairwise (· < ·)) (hmem : h ∈ hs) : place h hs = hs := by
  induction hs with
  | nil => exact absurd hmem List.not_mem_nil
  | cons x rest ih =>
    obtain ⟨hx, hrest⟩ := List.pairwise_cons.1 hsorted
    unfold place
    split
    · rfl
    · rename_i hne
      have hrestmem : h ∈ rest := (List.mem_cons.1 hmem).resolve_left hne
      have hlt : ¬h < x := UInt64.lt_asymm (hx h hrestmem)
      rw [if_neg hlt, ih hrest hrestmem]

theorem placeAll_of_mem (hsorted : hs.Pairwise (· < ·)) (hmem : ∀ b ∈ bs, b.height ∈ hs) :
    placeAll bs hs = hs := by
  induction bs with
  | nil => rfl
  | cons b rest ih =>
    obtain ⟨hb, hrest⟩ := List.forall_mem_cons.1 hmem
    have hstep : placeAll (b :: rest) hs = placeAll rest (place b.height hs) := rfl
    rw [hstep, place_of_mem hsorted hb, ih hrest]

/-! ## Confirming -/

theorem confirm_cons_stored (hb : m.stores b = true) :
    m.confirm (b :: bs) = confirm { m with confirmed := place b.height m.confirmed } bs := by
  rw [confirm]
  exact if_pos hb

theorem confirm_cons_unstored (hb : m.stores b = false) :
    m.confirm (b :: bs) = (.error (.unstored b.height), m) := by
  have hnone : ¬m.stores b = true := by simp [hb]
  rw [confirm]
  exact if_neg hnone

/-- **What is confirmed** are the blocks in front of the first one that is not stored. -/
theorem confirm_eq (m : MemoryStore) (bs : List Block) :
    (m.confirm bs).2 = { m with confirmed := placeAll (m.confirmable bs) m.confirmed } := by
  induction bs generalizing m with
  | nil => rfl
  | cons b rest ih =>
    cases hb : m.stores b with
    | true =>
      have htaken : m.confirmable (b :: rest) = b :: m.confirmable rest := List.takeWhile_cons_of_pos hb
      rw [confirm_cons_stored hb, ih, htaken]
      rfl
    | false =>
      have htaken : m.confirmable (b :: rest) = [] := List.takeWhile_cons_of_neg (by simp [hb])
      rw [confirm_cons_unstored hb, htaken]
      rfl

/-- It ends well if all blocks are stored, and otherwise with the first one that is not. -/
theorem confirm_cases (m : MemoryStore) (bs : List Block) :
    ((m.confirm bs).1 = .ok () ∧ (∀ b ∈ bs, m.stores b = true) ∧ m.confirmable bs = bs) ∨
    ∃ b rest, (m.confirm bs).1 = .error (.unstored b.height) ∧
      bs = m.confirmable bs ++ b :: rest ∧ m.stores b = false := by
  induction bs generalizing m with
  | nil => exact .inl ⟨rfl, List.forall_mem_nil _, rfl⟩
  | cons b rest ih =>
    cases hb : m.stores b with
    | true =>
      have htaken : m.confirmable (b :: rest) = b :: m.confirmable rest := List.takeWhile_cons_of_pos hb
      rw [confirm_cons_stored hb, htaken]
      rcases ih { m with confirmed := place b.height m.confirmed } with
        ⟨hok, hall, htakes⟩ | ⟨x, behind, herror, hparts, hx⟩
      · exact .inl ⟨hok, List.forall_mem_cons.2 ⟨hb, hall⟩, congrArg (b :: ·) htakes⟩
      · exact .inr ⟨x, behind, herror, congrArg (b :: ·) hparts, hx⟩
    | false =>
      have htaken : m.confirmable (b :: rest) = [] := List.takeWhile_cons_of_neg (by simp [hb])
      rw [confirm_cons_unstored hb, htaken]
      exact .inr ⟨b, rest, rfl, rfl, hb⟩

/-- **Confirmed heights stand in their order**, each of them once, in every state. -/
theorem Reachable.ascending (hm : m.Reachable) : m.confirmed.Pairwise (· < ·) := by
  induction hm with
  | new => exact List.Pairwise.nil
  | @call m c _ ih =>
    cases c with
    | blocks bs | transactions ts => exact ih
    | confirm bs =>
      have hafter := congrArg MemoryStore.confirmed (confirm_eq m bs)
      exact hafter ▸ placeAll_ascending ih

/-- **A failed confirmation confirms what is in front of the failure.** Confirming blocks succeeds just if
all of them are stored, and fails for the first one that is not. Either way no block and no transaction
changes, and the confirmed heights are the old ones with those of the blocks in front of the first one
that is not stored, which are all blocks after a success. So after a failure the store is as it was just if
these blocks were confirmed before. -/
theorem confirmed_before_failure (m : MemoryStore) (hm : m.Reachable) (bs : List Block) :
    let taken := m.confirmable bs
    ((m.confirm bs).1 = .ok () ↔ ∀ b ∈ bs, m.stores b = true) ∧
    ((m.confirm bs).1 = .ok () → taken = bs) ∧
    (∀ e, (m.confirm bs).1 = .error e ↔
      ∃ b rest, bs = taken ++ b :: rest ∧ m.stores b = false ∧ e = .unstored b.height) ∧
    (m.confirm bs).2.blocks = m.blocks ∧ (m.confirm bs).2.transactions = m.transactions ∧
    (∀ h, (m.confirm bs).2.isConfirmed h = true ↔
      m.isConfirmed h = true ∨ ∃ b ∈ taken, b.height = h) ∧
    ((m.confirm bs).2 = m ↔ ∀ b ∈ taken, m.isConfirmed b.height = true) := by
  intro taken
  have hafter := confirm_eq m bs
  have hconfirmed : ∀ h, (m.confirm bs).2.isConfirmed h = true ↔
      m.isConfirmed h = true ∨ ∃ b ∈ taken, b.height = h := by
    intro h
    rw [hafter, isConfirmed, isConfirmed, List.contains_iff_mem, List.contains_iff_mem]
    exact mem_placeAll_iff
  refine ⟨⟨fun hok => ?_, fun hall => ?_⟩, fun hok => ?_, fun e => ⟨fun herror => ?_, ?_⟩,
    by rw [hafter], by rw [hafter], hconfirmed, fun hsame b hb => ?_, fun hall => ?_⟩
  · rcases confirm_cases m bs with ⟨-, hall, -⟩ | ⟨b, rest, herror, -, -⟩
    · exact hall
    · rw [hok] at herror
      cases herror
  · rcases confirm_cases m bs with ⟨hok, -, -⟩ | ⟨b, rest, -, hparts, hb⟩
    · exact hok
    · have hmem : b ∈ bs := by
        rw [hparts]
        exact List.mem_append_right _ List.mem_cons_self
      rw [hall b hmem] at hb
      cases hb
  · rcases confirm_cases m bs with ⟨-, -, htaken⟩ | ⟨b, rest, herror, -, -⟩
    · exact htaken
    · rw [hok] at herror
      cases herror
  · rcases confirm_cases m bs with ⟨hok, -, -⟩ | ⟨b, rest, hfirst, hparts, hb⟩
    · rw [hok] at herror
      cases herror
    · rw [hfirst] at herror
      cases herror
      exact ⟨b, rest, hparts, hb, rfl⟩
  · rintro ⟨b, rest, hparts, hb, rfl⟩
    rcases confirm_cases m bs with ⟨-, hall, -⟩ | ⟨x, behind, hfirst, hparts', -⟩
    · have hmem : b ∈ bs := by
        rw [hparts]
        exact List.mem_append_right _ List.mem_cons_self
      rw [hall b hmem] at hb
      cases hb
    · -- both stand right behind the blocks that are confirmed
      have hsame := List.append_cancel_left (hparts.symm.trans hparts')
      obtain ⟨rfl, -⟩ := List.cons.inj hsame
      exact hfirst
  · have hthen := (hconfirmed b.height).2 (.inr ⟨b, hb, rfl⟩)
    rwa [hsame] at hthen
  · rw [hafter]
    have hmem : ∀ b ∈ taken, b.height ∈ m.confirmed := fun b hb => by
      simpa [isConfirmed] using hall b hb
    rw [placeAll_of_mem hm.ascending hmem]

/-- A store with the block of height five. -/
def withFive : MemoryStore :=
  putBlocks {} [{ height := 5 }]

theorem reachable_withFive : withFive.Reachable :=
  .call (.blocks [{ height := 5 }]) .new

/-- Confirming five and nine fails at nine, and leaves five confirmed. -/
theorem confirmed_before_failure_five : withFive.Reachable ∧ withFive.isConfirmed 5 = false ∧
    (withFive.confirm [{ height := 5 }, { height := 9 }]).1 = .error (.unstored 9) ∧
    (withFive.confirm [{ height := 5 }, { height := 9 }]).2.isConfirmed 5 = true := by
  obtain ⟨-, -, herror, -, -, hconfirmed, -⟩ := confirmed_before_failure withFive reachable_withFive
    [{ height := 5 }, { height := 9 }]
  exact ⟨reachable_withFive, rfl, (herror _).2 ⟨{ height := 9 }, [], rfl, rfl, rfl⟩,
    (hconfirmed 5).2 (.inr ⟨{ height := 5 }, by decide, rfl⟩)⟩

/-- A failed confirmation does not leave every store as it was. -/
theorem failure_not_undone : ¬∀ m : MemoryStore, m.Reachable → ∀ bs : List Block,
    (m.confirm bs).1 = .ok () ∨ (m.confirm bs).2 = m := by
  intro hatomic
  rcases hatomic withFive reachable_withFive [{ height := 5 }, { height := 9 }] with hok | hsame
  · cases hok
  · have hconfirmed := congrArg confirmed hsame
    cases hconfirmed

end ChainIndex.MemoryStore
