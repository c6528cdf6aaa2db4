import ChainIndex.Keyed
import ChainIndex.Node.Cache
import Mathlib.Data.List.DropRight
import Mathlib.Data.List.Nodup

/-!
# The cache is a sliding window

The blocks of a cache and their order are kept apart, and still they are one list: the blocks that were
accepted last, as many as there is room for (`Holds`). What is added goes to the end of the list, and
what no longer fits leaves it at the front (`Holds.add_new`).

* `Holds.get?_eq`, `Holds.contains_iff`, `Holds.size_eq`: a cache is read as the list is.
* `Holds.run`: whatever is done with a cache, the list is the end of everything that was accepted.
* `sliding_window`: **the cache answers as the window of the blocks accepted last**.
-/

namespace ChainIndex.BlockCache

/-! ## Windows -/

/-- What was accepted last, as far as there is room for it. -/
def windowOf (room : Nat) (accepted : List Block) : List Block :=
  accepted.rtake room

variable {room : Nat} {accepted : List Block}

theorem length_windowOf_le (room : Nat) (accepted : List Block) :
    (windowOf room accepted).length ≤ room := by
  rw [windowOf, List.rtake, List.length_drop]
  omega

/-- What leaves the window does not come back. -/
theorem windowOf_concat (b : Block) :
    windowOf (room + 1) (accepted ++ [b]) = windowOf room (windowOf (room + 1) accepted) ++ [b] := by
  have hlength : (accepted.rtake (room + 1)).length = min (room + 1) accepted.length := by
    rw [List.rtake, List.length_drop]
    omega
  -- the last ones of the last ones
  have hinner : (accepted.rtake (room + 1)).rtake room = accepted.rtake room := by
    rw [List.rtake, hlength, List.rtake, List.rtake, List.drop_drop]
    congr 1
    omega
  rw [windowOf, List.rtake_concat_succ, windowOf, windowOf, hinner]

/-! ## What a cache holds -/

/-- A cache holds these blocks, the oldest first: its order and its look-up are both theirs. -/
structure Holds (c : BlockCache) (window : List Block) : Prop where
  order : c.order = window.map Block.height
  blocks : c.blocks.Perm (window.map fun b => (b.height, b))
  distinct : (window.map Block.height).Nodup
  length_le : window.length ≤ c.capacity

section Holds

variable {c : BlockCache} {window : List Block}

theorem holds_ofCapacity (n : Nat) : (ofCapacity n).Holds [] where
  order := rfl
  blocks := .refl []
  distinct := List.nodup_nil
  length_le := Nat.zero_le _

theorem Holds.get?_eq_some_iff (h : c.Holds window) {height : Height} {b : Block} :
    c.get? height = some b ↔ b ∈ window ∧ b.height = height := by
  have hkeys : (window.map fun b => (b.height, b)).map Prod.fst = window.map Block.height := by
    rw [List.map_map]
    rfl
  have hnodup : (c.blocks.map Prod.fst).Nodup := by
    rw [(h.blocks.map Prod.fst).nodup_iff, hkeys]
    exact h.distinct
  rw [get?, lookup_eq_some_iff hnodup, h.blocks.mem_iff, List.mem_map]
  constructor
  · rintro ⟨x, hx, heq⟩
    obtain ⟨rfl, rfl⟩ := Prod.ext_iff.1 heq
    exact ⟨hx, rfl⟩
  · rintro ⟨hb, rfl⟩
    exact ⟨b, hb, rfl⟩

/-- Blocks of different heights are found by their heights. -/
theorem find?_height (h : (window.map Block.height).Nodup) {height : Height} {b : Block} :
    window.find? (·.height == height) = some b ↔ b ∈ window ∧ b.height = height := by
  constructor
  · intro hfind
    exact ⟨List.mem_of_find?_eq_some hfind, by simpa using List.find?_some hfind⟩
  · rintro ⟨hb, rfl⟩
    cases hfind : window.find? (·.height == b.height) with
    | none => exact absurd (beq_self_eq_true b.height) (List.find?_eq_none.1 hfind b hb)
    | some x =>
      have hheight : x.height = b.height := by simpa using List.find?_some hfind
      rw [List.inj_on_of_nodup_map h (List.mem_of_find?_eq_some hfind) hb hheight]

/-- **A block is looked up in the window.** -/
theorem Holds.get?_eq (h : c.Holds window) (height : Height) :
    c.get? height = window.find? (·.height == height) := by
  refine Option.ext fun b => ?_
  rw [h.get?_eq_some_iff, find?_height h.distinct]

theorem Holds.contains_iff (h : c.Holds window) {height : Height} :
    c.contains height = true ↔ ∃ b ∈ window, b.height = height := by
  rw [contains, Option.isSome_iff_exists]
  exact exists_congr fun b => h.get?_eq_some_iff

theorem Holds.size_eq (h : c.Holds window) : c.size = window.length := by
  rw [size, h.order, List.length_map]

/-- A height that is there is refused, and nothing changes. -/
theorem add_of_contains {b : Block} (h : c.contains b.height = true) : c.add b = (false, c) :=
  if_pos h

/-- The oldest block leaves the order and the look-up. -/
theorem Holds.dropOldest {b : Block} (h : c.Holds (b :: window)) : c.dropOldest.Holds window := by
  obtain ⟨horder, hblocks, hdistinct, hlength⟩ := h
  rw [List.map_cons] at horder hblocks hdistinct
  obtain ⟨hfree, hrest⟩ := List.nodup_cons.1 hdistinct
  have hdrop : c.dropOldest = { c with
      blocks := c.blocks.filter (·.1 != b.height), order := window.map Block.height } := by
    rw [BlockCache.dropOldest, horder]
  -- no other block has the height that leaves
  have hkept : (window.map fun x => (x.height, x)).filter (·.1 != b.height) =
      window.map fun x => (x.height, x) := by
    rw [List.filter_eq_self]
    intro entry hentry
    obtain ⟨x, hx, rfl⟩ := List.mem_map.1 hentry
    exact bne_iff_ne.2 fun heq => hfree (heq ▸ List.mem_map_of_mem hx)
  rw [hdrop]
  refine ⟨rfl, ?_, hrest, Nat.le_of_succ_le hlength⟩
  have hperm := hblocks.filter (·.1 != b.height)
  rwa [List.filter_cons_of_neg (by simp), hkept] at hperm

/-- A new block goes to the end where there is room. -/
theorem Holds.push (h : c.Holds window) (hroom : window.length < c.capacity) {b : Block}
    (hb : ∀ x ∈ window, x.height ≠ b.height) :
    Holds { c with blocks := (b.height, b) :: c.blocks, order := c.order ++ [b.height] }
      (window ++ [b]) where
  order := by rw [h.order, List.map_append, List.map_singleton]
  blocks := by
    rw [List.map_append, List.map_singleton]
    exact (h.blocks.cons _).trans (List.perm_append_singleton _ _).symm
  distinct := by
    rw [List.map_append, List.map_singleton, List.nodup_append]
    refine ⟨h.distinct, List.nodup_singleton _, fun height hheight other hother => ?_⟩
    obtain ⟨x, hx, rfl⟩ := List.mem_map.1 hheight
    rw [List.mem_singleton.1 hother]
    exact hb x hx
  length_le := by
    rw [List.length_append, List.length_singleton]
    exact hroom

/-- **A new block is accepted.** It comes after the others, of which the oldest leaves if the cache is
full. -/
theorem Holds.add_new (h : c.Holds window) (hroom : 0 < c.capacity) {b : Block}
    (hb : ∀ x ∈ window, x.height ≠ b.height) :
    (c.add b).1 = true ∧ (c.add b).2.capacity = c.capacity ∧
      (c.add b).2.Holds (windowOf (c.capacity - 1) window ++ [b]) := by
  have hnew : ¬c.contains b.height = true := by
    rw [h.contains_iff]
    rintro ⟨x, hx, heq⟩
    exact hb x hx heq
  have hadd : c.add b = (true, { (if c.capacity ≤ c.size then c.dropOldest else c) with
      blocks := (b.height, b) :: (if c.capacity ≤ c.size then c.dropOldest else c).blocks
      order := (if c.capacity ≤ c.size then c.dropOldest else c).order ++ [b.height] }) :=
    if_neg hnew
  have hlength := h.length_le
  rw [hadd, h.size_eq, windowOf, List.rtake]
  by_cases hfull : c.capacity ≤ window.length
  · -- the oldest block makes room
    rw [if_pos hfull]
    cases window with
    | nil => exact absurd hfull (Nat.not_le.2 hroom)
    | cons oldest window =>
      rw [List.length_cons] at hfull hlength ⊢
      have hcapacity : c.dropOldest.capacity = c.capacity := by
        rw [BlockCache.dropOldest]
        split <;> rfl
      have hone : window.length + 1 - (c.capacity - 1) = 1 := by omega
      rw [hone, List.drop_succ_cons, List.drop_zero]
      refine ⟨rfl, hcapacity, h.dropOldest.push ?_ fun x hx => hb x (List.mem_cons_of_mem _ hx)⟩
      omega
  · rw [if_neg hfull]
    have hnone : window.length - (c.capacity - 1) = 0 := by omega
    rw [hnone, List.drop_zero]
    exact ⟨rfl, rfl, h.push (Nat.not_le.1 hfull) hb⟩

end Holds

/-! ## Whatever is done with a cache -/

inductive Question where
  | get (height : Height)
  | contains (height : Height)
  | size

inductive Call where
  | add (b : Block)
  | ask (q : Question)

inductive Answer where
  | added (isNew : Bool)
  | block (b : Option Block)
  | contained (yes : Bool)
  | size (n : Nat)

def answer (c : BlockCache) : Question → Answer
  | .get height => .block (c.get? height)
  | .contains height => .contained (c.contains height)
  | .size => .size c.size

def call (c : BlockCache) : Call → Answer × BlockCache
  | .add b => (.added (c.add b).1, (c.add b).2)
  | .ask q => (c.answer q, c)

/-- Some calls one after the other, with their answers. -/
def run (c : BlockCache) : List Call → List (Call × Answer) × BlockCache
  | [] => ([], c)
  | x :: calls =>
    ((x, (c.call x).1) :: ((c.call x).2.run calls).1, ((c.call x).2.run calls).2)

/-- The block that a call has added. -/
def added? : Call × Answer → Option Block
  | (.add b, .added true) => some b
  | _ => none

theorem Holds.call {c : BlockCache} (h : c.Holds (windowOf (room + 1) accepted))
    (hroom : c.capacity = room + 1) (x : Call) :
    (c.call x).2.capacity = room + 1 ∧
      (c.call x).2.Holds (windowOf (room + 1)
        (accepted ++ (added? (x, (c.call x).1)).toList)) := by
  cases x with
  | ask q =>
    have hnone : added? (.ask q, (c.call (.ask q)).1) = none := rfl
    rw [hnone, Option.toList_none, List.append_nil]
    exact ⟨hroom, h⟩
  | add b =>
    by_cases hthere : c.contains b.height = true
    · have hadd := add_of_contains hthere
      have hnone : added? (.add b, (c.call (.add b)).1) = none := by
        rw [BlockCache.call, hadd]
        rfl
      rw [hnone, Option.toList_none, List.append_nil, BlockCache.call, hadd]
      exact ⟨hroom, h⟩
    · have hnew : ∀ x ∈ windowOf (room + 1) accepted, x.height ≠ b.height :=
        fun x hx heq => hthere (h.contains_iff.2 ⟨x, hx, heq⟩)
      obtain ⟨htrue, hcapacity, hholds⟩ := h.add_new (hroom ▸ Nat.succ_pos room) hnew
      have hsome : added? (.add b, (c.call (.add b)).1) = some b := by
        rw [BlockCache.call, htrue]
        rfl
      rw [hsome, Option.toList_some, windowOf_concat]
      rw [hroom, Nat.add_sub_cancel] at hholds
      exact ⟨hcapacity.trans hroom, hholds⟩

/-- **After any calls** a cache holds the end of what it has accepted. -/
theorem Holds.run (calls : List Call) {c : BlockCache} (hroom : c.capacity = room + 1)
    (h : c.Holds (windowOf (room + 1) accepted)) :
    (c.run calls).2.capacity = room + 1 ∧
      (c.run calls).2.Holds (windowOf (room + 1)
        (accepted ++ (c.run calls).1.filterMap added?)) := by
  induction calls generalizing c accepted with
  | nil =>
    rw [BlockCache.run, List.filterMap_nil, List.append_nil]
    exact ⟨hroom, h⟩
  | cons x calls ih =>
    obtain ⟨hcapacity, hholds⟩ := h.call hroom x
    have hrest := ih hcapacity hholds
    have hlog : (c.run (x :: calls)).1.filterMap added? =
        (added? (x, (c.call x).1)).toList ++ ((c.call x).2.run calls).1.filterMap added? := by
      rw [BlockCache.run, List.filterMap_cons]
      cases added? (x, (c.call x).1) <;> rfl
    rwa [hlog, ← List.append_assoc]

/-- **A cache is the window of the blocks that it accepted last.** Whatever its capacity (zero counts as
one) and whatever was done with it: it holds as many of the blocks it accepted last as there is room
for, no two of the same height, and the oldest one leaves first. A block is refused, and nothing
changes, just if one of its height is in the window; everything else is answered from the window and
changes nothing. -/
theorem sliding_window (n : Nat) (calls : List Call) :
    let c := ((ofCapacity n).run calls).2
    let window := windowOf (max n 1) (((ofCapacity n).run calls).1.filterMap added?)
    c.Holds window ∧ window.length ≤ max n 1 ∧
      (∀ b, c.call (.add b) = (.added false, c) ↔ ∃ x ∈ window, x.height = b.height) ∧
      (∀ b, (c.call (.add b)).1 = .added true ↔ ∀ x ∈ window, x.height ≠ b.height) ∧
      (∀ height, c.call (.ask (.get height)) =
        (.block (window.find? (·.height == height)), c)) ∧
      (∀ height, c.call (.ask (.contains height)) =
        (.contained (window.any (·.height == height)), c)) ∧
      c.call (.ask .size) = (.size window.length, c) := by
  obtain ⟨room, hroom⟩ : ∃ room, max n 1 = room + 1 := ⟨max n 1 - 1, by omega⟩
  intro c window
  have hempty : (ofCapacity n).Holds (windowOf (room + 1) []) := by
    rw [windowOf, List.rtake_nil]
    exact holds_ofCapacity n
  obtain ⟨hcapacity, hholds⟩ := hempty.run calls hroom
  rw [List.nil_append, ← hroom] at hholds
  have hcontains (height : Height) :
      c.contains height = window.any (·.height == height) := by
    rw [Bool.eq_iff_iff, hholds.contains_iff, List.any_eq_true]
    exact exists_congr fun b => and_congr_right' beq_iff_eq.symm
  have hrefused (b : Block) (hb : ∃ x ∈ window, x.height = b.height) : c.add b = (false, c) :=
    add_of_contains (hholds.contains_iff.2 hb)
  have haccepted (b : Block) (hb : ∀ x ∈ window, x.height ≠ b.height) : (c.add b).1 = true :=
    (hholds.add_new (by rw [hcapacity]; omega) hb).1
  refine ⟨hholds, length_windowOf_le _ _, fun b => ⟨fun heq => ?_, fun hb => ?_⟩,
    fun b => ⟨fun heq => ?_, fun hb => ?_⟩, fun height => ?_, fun height => ?_, ?_⟩
  · by_contra hnone
    have htrue := haccepted b fun x hx hxb => hnone ⟨x, hx, hxb⟩
    rw [call, htrue] at heq
    cases (Prod.ext_iff.1 heq).1
  · rw [call, hrefused b hb]
  · intro x hx hxb
    rw [call, hrefused b ⟨x, hx, hxb⟩] at heq
    cases heq
  · rw [call, haccepted b hb]
  · rw [call, answer, hholds.get?_eq]
  · rw [call, answer, hcontains]
  · rw [call, answer, hholds.size_eq]

end ChainIndex.BlockCache
