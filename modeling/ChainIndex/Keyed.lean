import ChainIndex.Json.Codec

/-!
# Keyed values in order of insertion

A map that remembers the order in which its keys arrived. Writing to a key that is there keeps the
key's position.

* `keys_insert`: what an insertion does to the keys.
* `get?_insert`: what it does to the values.
-/

namespace ChainIndex

/-- Pairs with different keys are looked up by their keys. -/
theorem lookup_eq_some_iff {α β : Type} [DecidableEq α] {pairs : List (α × β)}
    (h : (pairs.map Prod.fst).Nodup) {key : α} {value : β} :
    pairs.lookup key = some value ↔ (key, value) ∈ pairs := by
  induction pairs with
  | nil => simp
  | cons pair pairs ih =>
    obtain ⟨k, v⟩ := pair
    rw [List.map_cons, List.nodup_cons] at h
    rw [List.lookup_cons, List.mem_cons]
    by_cases hkey : key = k
    · subst hkey
      have hfree : (key, value) ∉ pairs := fun hmem =>
        h.1 (List.mem_map.2 ⟨(key, value), hmem, rfl⟩)
      simp [hfree, eq_comm]
    · have hne : (key == k) = false := beq_eq_false_iff_ne.2 hkey
      simp [hne, hkey, ih h.2]

/-- Pairs of a key and a value, the keys in order of first insertion. -/
abbrev Keyed (α : Type) := List (String × α)

namespace Keyed

variable {α : Type}

def keys (m : Keyed α) : List String :=
  m.map Prod.fst

def get? (m : Keyed α) (key : String) : Option α :=
  m.lookup key

/-- Changes the value at a key, or appends one for a key that is not there. -/
def alter (m : Keyed α) (key : String) (f : Option α → α) : Keyed α :=
  match m with
  | [] => [(key, f none)]
  | (k, v) :: rest => if k = key then (k, f (some v)) :: rest else (k, v) :: alter rest key f

def insert (m : Keyed α) (key : String) (value : α) : Keyed α :=
  m.alter key fun _ => value

/-- Appends to the list at a key. -/
def push (m : Keyed (List α)) (key : String) (value : α) : Keyed (List α) :=
  m.alter key fun old => old.getD [] ++ [value]

theorem keys_alter (m : Keyed α) (key : String) (f : Option α → α) :
    (m.alter key f).keys = if key ∈ m.keys then m.keys else m.keys ++ [key] := by
  induction m with
  | nil => rfl
  | cons p rest ih =>
    obtain ⟨k, v⟩ := p
    by_cases h : k = key
    · simp [alter, keys, h]
    · have h' : ¬ key = k := fun e => h e.symm
      simp only [keys] at ih ⊢
      simp only [alter, h, if_false, List.map_cons, ih, List.mem_cons, h', false_or]
      split <;> simp_all

theorem keys_insert (m : Keyed α) (key : String) (value : α) :
    (m.insert key value).keys = if key ∈ m.keys then m.keys else m.keys ++ [key] :=
  keys_alter m key _

theorem get?_alter (m : Keyed α) (key other : String) (f : Option α → α) :
    (m.alter key f).get? other = if other = key then some (f (m.get? key)) else m.get? other := by
  induction m with
  | nil =>
    by_cases h : other = key
    · simp [alter, get?, h]
    · have hb : (other == key) = false := by simpa using h
      simp [alter, get?, List.lookup_cons, h, hb]
  | cons p rest ih =>
    obtain ⟨k, v⟩ := p
    simp only [get?] at ih ⊢
    by_cases hk : k = key
    · subst hk
      by_cases ho : other = k
      · subst ho; simp [alter]
      · have hb : (other == k) = false := by simpa using ho
        simp [alter, List.lookup_cons, ho, hb]
    · have hkb : (key == k) = false := by simpa using fun e => hk e.symm
      by_cases ho : other = k
      · subst ho
        simp [alter, hk]
      · have hb : (other == k) = false := by simpa using ho
        simp [alter, hk, List.lookup_cons, hb, hkb, ih]

theorem get?_insert (m : Keyed α) (key other : String) (value : α) :
    (m.insert key value).get? other = if other = key then some value else m.get? other :=
  get?_alter m key other _

/-- The map that a list of pairs makes; a later value of a key replaces an earlier one. -/
def ofList (pairs : List (String × α)) : Keyed α :=
  pairs.foldl (fun (m : Keyed α) p => m.insert p.1 p.2) []

/-- Written as an object, and read from one. -/
def codec (c : Json.Codec α) : Json.Codec (Keyed α) where
  write m := .object (m.map fun p => (p.1, c.write p.2))
  read
    | .object members =>
      (members.mapM fun p => (c.read p.2).map (p.1, ·)).map ofList
    | _ => none

end Keyed

end ChainIndex
