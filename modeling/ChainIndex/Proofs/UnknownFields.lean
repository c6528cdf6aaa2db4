import ChainIndex.Wire.Layout

/-!
# Fields that a layout does not know

A field with a tag that is not in the layout is passed over by its wire type alone, and leaves the message
as it is. So bytes that consist of such fields are the empty message of any layout, and there are such
bytes of every even length, and of every odd one from five on.

* `Key.read_ok`: what a number has to be to be read as a key.
* `Layout.first_field`: bytes that are read start with a key.
* `Layout.Skims.read`: **bytes of unknown fields are read as the empty message**.
* `Layout.skims_pairs`, `Layout.skims_odd`: bytes that every layout of low tags passes over.
-/

namespace ChainIndex.Wire

/-! ## Keys -/

theorem WireType.code_of_ofCode? {n : Nat} {w : WireType} (h : ofCode? n = some w) : w.code = n := by
  unfold ofCode? at h
  split at h <;> cases h <;> rfl

/-- **A key is a number of 32 bits** with a tag that is not zero and the code of a wire type. -/
theorem Key.read_ok {bytes rest : Bytes} {k : Key} (h : Key.read bytes = .ok (k, rest)) :
    Varint.read bytes = .ok (8 * k.tag + k.wireType.code, rest) ∧
      8 * k.tag + k.wireType.code < UInt32.size ∧ k.tag ≠ 0 := by
  obtain ⟨⟨n, rest'⟩, hnumber, h⟩ := of_bind_ok h
  simp only [bind, Except.bind] at h
  by_cases hlarge : UInt32.size ≤ n
  · rw [if_pos hlarge] at h
    cases h
  · rw [if_neg hlarge] at h
    cases hw : WireType.ofCode? (n % 8) with
    | none =>
      rw [hw] at h
      cases h
    | some w =>
      by_cases htag : n / 8 = 0
      · simp [hw, htag, throw, throwThe, MonadExceptOf.throw] at h
      · simp only [hw, if_neg htag, pure, Except.pure, Except.ok.injEq, Prod.mk.injEq] at h
        obtain ⟨rfl, rfl⟩ := h
        have hn : 8 * (n / 8) + w.code = n := by
          rw [WireType.code_of_ofCode? hw]
          omega
        exact ⟨by rw [hn]; exact hnumber, by rw [hn]; exact Nat.lt_of_not_le hlarge, htag⟩

/-! ## Unknown fields -/

variable {α : Type} {l : Layout α} {room : Nat}

/-- Fields that the layout does not know, one after the other, with room for so many nested groups. -/
inductive Layout.Skims (l : Layout α) (room : Nat) : Bytes → Prop where
  | nil : l.Skims room []
  | cons {bytes value more : Bytes} {k : Key} (hkey : Key.read bytes = .ok (k, value))
      (hunknown : ∀ f ∈ l.fields, f.tag ≠ k.tag) (hvalue : skip room k value = .ok more)
      (hshort : more.length < bytes.length) (hmore : l.Skims room more) : l.Skims room bytes

theorem skipBytes_append (skipped : Bytes) {n : Nat} (h : skipped.length = n) (rest : Bytes) :
    skipBytes n (skipped ++ rest) = .ok rest := by
  subst h
  rw [skipBytes, if_neg (by simp), List.drop_left]

/-- A value that is no group is passed over by its wire type. -/
theorem skip_eq_skipValue {k : Key} (hroom : room ≠ 0) (hgroup : k.wireType ≠ .startGroup)
    (bytes : Bytes) : skip room k bytes = skipValue k.wireType bytes := by
  simp only [skip, if_neg hroom, if_neg hgroup]
  cases skipValue k.wireType bytes <;> rfl

namespace Layout

/-- A layout passes over a field that it does not know. -/
theorem mergeField_unknown {k : Key} (h : ∀ f ∈ l.fields, f.tag ≠ k.tag) (a : α) (bytes : Bytes) :
    l.mergeField room k a bytes = (located (skip room k bytes)).map fun rest => (a, rest) := by
  have hnone : (l.fields.find? fun f => f.tag == k.tag) = none :=
    List.find?_eq_none.2 fun f hf => by simpa using h f hf
  simp only [mergeField, hnone]
  cases skip room k bytes <;> rfl

theorem Skims.mergeFields {bytes : Bytes} (h : l.Skims room bytes) (a : α) :
    ∀ {steps : Nat}, bytes.length ≤ steps → l.mergeFields room 0 steps a bytes = .ok (a, []) := by
  induction h with
  | nil =>
    intro steps _
    cases steps with
    | zero => rfl
    | succ steps => rfl
  | @cons bytes value more k hkey hunknown hvalue hshort _ ih =>
    intro steps hsteps
    -- a field takes a byte at least, so the steps last for the others
    obtain ⟨steps, rfl⟩ : ∃ n, steps = n + 1 := ⟨steps - 1, by omega⟩
    have hsome : ¬bytes.length ≤ 0 := by omega
    have hmerge : l.mergeField room k a value = .ok (a, more) := by
      rw [mergeField_unknown hunknown, hvalue]
      rfl
    have hread : located (Key.read bytes) = .ok (k, value) := by
      rw [hkey]
      rfl
    rw [Layout.mergeFields, if_neg hsome]
    simp only [hread, hmerge, bind, Except.bind]
    exact ih (by omega)

/-- **Bytes of unknown fields are read as the empty message.** -/
theorem Skims.read {bytes : Bytes} (h : l.Skims nestingLimit bytes) : l.read bytes = .ok l.empty := by
  rw [Layout.read, h.mergeFields l.empty (Nat.le_refl _)]
  rfl

/-- What is read starts with a key, and the field under it is taken or passed over. -/
theorem first_field {bytes : Bytes} {a : α} (h : l.read bytes = .ok a) (hne : bytes ≠ []) :
    ∃ k rest r, Key.read bytes = .ok (k, rest) ∧
      l.mergeField nestingLimit k l.empty rest = .ok r := by
  obtain ⟨steps, hsteps⟩ : ∃ n, bytes.length = n + 1 :=
    Nat.exists_eq_succ_of_ne_zero (by simpa using hne)
  have hsome : ¬bytes.length ≤ 0 := by omega
  rw [Layout.read, hsteps, Layout.mergeFields, if_neg hsome] at h
  obtain ⟨_, hfields, -⟩ := of_bind_ok h
  obtain ⟨⟨k, rest⟩, hkey, hfields⟩ := of_bind_ok hfields
  obtain ⟨r, hmerge, -⟩ := of_bind_ok hfields
  exact ⟨k, rest, r, of_mapError_ok hkey, hmerge⟩

/-- All tags are below the bound. -/
def Below (l : Layout α) (bound : Nat) : Prop :=
  ∀ f ∈ l.fields, f.tag < bound

variable {bound : Nat}

theorem Below.unknown (hl : l.Below bound) {tag : Nat} (h : bound ≤ tag) :
    ∀ f ∈ l.fields, f.tag ≠ tag :=
  fun f hf heq => absurd (hl f hf) (by omega)

/-- Numbers under the tag 15, two bytes each: the byte 120 is their key and their value. -/
theorem skims_pairs (hl : l.Below bound) (hbound : bound ≤ 15) (k : Nat) :
    l.Skims nestingLimit (List.replicate (2 * k) 120) := by
  induction k with
  | zero => exact .nil
  | succ k ih =>
    rw [show 2 * (k + 1) = 2 * k + 1 + 1 by omega, List.replicate_succ, List.replicate_succ]
    have hshort : (List.replicate (2 * k) (120 : UInt8)).length <
        (120 :: 120 :: List.replicate (2 * k) (120 : UInt8)).length := by
      simp only [List.length_cons, List.length_replicate]
      omega
    exact .cons (k := ⟨15, .varint⟩) rfl (hl.unknown hbound) rfl hshort ih

/-- Four bytes under the tag 15, which have the key 125, and numbers. -/
theorem skims_word (hl : l.Below bound) (hbound : bound ≤ 15) (k : Nat) :
    l.Skims nestingLimit (125 :: List.replicate (2 * k + 4) 120) := by
  have hskip : skip nestingLimit ⟨15, .thirtyTwoBit⟩ (List.replicate (2 * k + 4) 120) =
      .ok (List.replicate (2 * k) 120) := by
    rw [skip_eq_skipValue (by decide) (by decide), Nat.add_comm, ← List.replicate_append_replicate]
    exact skipBytes_append (List.replicate 4 120) rfl _
  have hshort : (List.replicate (2 * k) (120 : UInt8)).length <
      (125 :: List.replicate (2 * k + 4) (120 : UInt8)).length := by
    simp only [List.length_cons, List.length_replicate]
    omega
  exact .cons rfl (hl.unknown hbound) hskip hshort (skims_pairs hl hbound k)

/-- An odd number of bytes. -/
theorem skims_odd (hl : l.Below bound) (hbound : bound ≤ 15) (k : Nat) :
    l.Skims nestingLimit (120 :: 120 :: 120 :: 120 :: 125 :: List.replicate (2 * k + 4) 120) := by
  refine .cons (k := ⟨15, .varint⟩) rfl (hl.unknown hbound) rfl (by simp) ?_
  exact .cons (k := ⟨15, .varint⟩) rfl (hl.unknown hbound) rfl (by simp)
    (skims_word hl hbound k)

end Layout

end ChainIndex.Wire
