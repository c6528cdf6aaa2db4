import ChainIndex.Wire.Layout
import Mathlib.Algebra.Group.Nat.Defs
import Mathlib.Data.List.Basic

/-!
# Messages are read back as they were written

A layout writes the fields of a message one after the other and leaves out what is empty. Reading takes
the written occurrences into the empty message, one at a time, and each of them restores what its field
holds (`Field.Copies`). If this leads from the empty message to the message itself, whatever it is, the
layout is faithful (`Layout.Faithful`), and **reading inverts writing** (`Faithful.read_write`).

Lengths are written as numbers of 64 bits, so all this is about messages of fewer than `2 ^ 64` bytes.
-/

namespace ChainIndex.Wire

/-! ## Keys and single values -/

theorem Varint.read_write {n : Nat} (h : n < UInt64.size) (rest : Bytes) :
    Varint.read (Varint.write n ++ rest) = .ok (n, rest) := by
  rw [Varint.read, Varint.read?_write n rest h]

theorem Varint.write_ne_nil (n : Nat) : Varint.write n ≠ [] := by
  rw [Varint.write]
  split <;> exact List.cons_ne_nil _ _

/-- Tags that fit into a key. -/
def Tag (n : Nat) : Prop :=
  0 < n ∧ n < 2 ^ 29

instance (n : Nat) : Decidable (Tag n) :=
  inferInstanceAs (Decidable (_ ∧ _))

theorem Key.read_write {k : Key} (h : Tag k.tag) (rest : Bytes) :
    Key.read (k.write ++ rest) = .ok (k, rest) := by
  obtain ⟨hpos, hlt⟩ := h
  have hcode : k.wireType.code < 8 := by cases k.wireType <;> decide
  have hsize : 8 * k.tag + k.wireType.code < UInt32.size := by
    show _ < 2 ^ 32
    omega
  have hread := Varint.read_write (Nat.lt_trans hsize (by decide)) rest
  have hmod : (8 * k.tag + k.wireType.code) % 8 = k.wireType.code := by omega
  have hdiv : (8 * k.tag + k.wireType.code) / 8 = k.tag := by omega
  simp only [Key.read, Key.write, hread, bind, Except.bind, hmod, hdiv, WireType.ofCode?_code]
  rw [if_neg (Nat.not_le.2 hsize)]
  simp only [pure, Except.pure, if_neg (Nat.pos_iff_ne_zero.1 hpos)]

namespace Scalar

variable {β : Type}

/-- A value is read back as it was written, and only `blank` is left out. -/
structure Lawful (k : Scalar β) (blank : β) : Prop where
  eq_blank : ∀ b, k.isDefault b = true → b = blank
  read_write : ∀ b rest, (k.write b).length < UInt64.size →
    k.read (k.write b ++ rest) = .ok (b, rest)

theorem number_lawful {isDefault : β → Bool} {toNat : β → Nat} {ofNat : Nat → β} {blank : β}
    (hblank : ∀ b, isDefault b = true → b = blank) (hlt : ∀ b, toNat b < UInt64.size)
    (hinv : ∀ b, ofNat (toNat b) = b) : (number isDefault toNat ofNat).Lawful blank where
  eq_blank := hblank
  read_write b rest _ := by
    dsimp only [number]
    rw [Varint.read_write (hlt b)]
    show Except.ok (ofNat (toNat b), rest) = _
    rw [hinv]

theorem word64_lawful : word64.Lawful 0 :=
  number_lawful (fun _ => eq_of_beq) UInt64.toNat_lt fun _ => UInt64.ofNat_toNat

theorem int64_lawful : int64.Lawful 0 :=
  number_lawful (fun _ => eq_of_beq) (fun n => n.toUInt64.toNat_lt) fun n => by
    rw [UInt64.ofNat_toNat, Int64.toInt64_toUInt64]

theorem int32_lawful : int32.Lawful 0 :=
  number_lawful (fun _ => eq_of_beq) (fun n => n.toInt64.toUInt64.toNat_lt) fun n => by
    apply Int32.toBitVec_inj.1
    show BitVec.ofNat 32 (n.toBitVec.signExtend 64).toNat = n.toBitVec
    rw [BitVec.ofNat_toNat]
    ext i hi
    rw [BitVec.getElem_setWidth, BitVec.getLsbD_signExtend]
    simp only [hi, if_true, BitVec.getLsbD_eq_getElem]
    rw [decide_eq_true (by omega), Bool.true_and]

theorem bool_lawful : bool.Lawful false :=
  number_lawful (fun _ => eq_of_beq) (fun b => by cases b <;> decide) fun b => by cases b <;> rfl

theorem blob_read_write {b : Bytes} (h : (blob.write b).length < UInt64.size) (rest : Bytes) :
    blob.read (blob.write b ++ rest) = .ok (b, rest) := by
  have hlt : b.length < UInt64.size := by
    have hle : b.length ≤ (Varint.write b.length ++ b).length := by simp
    exact Nat.lt_of_le_of_lt hle h
  dsimp only [blob]
  rw [List.append_assoc, Varint.read_write hlt]
  have hle : ¬(b ++ rest).length < b.length := by simp
  simp only [bind, Except.bind, if_neg hle, List.take_left, List.drop_left]
  rfl

theorem blob_lawful : blob.Lawful [] where
  eq_blank _ := List.isEmpty_iff.1
  read_write _ rest h := blob_read_write h rest

theorem text_lawful : text.Lawful "" where
  eq_blank _ h := String.isEmpty_iff.1 h
  read_write s rest h := by
    dsimp only [text] at h ⊢
    rw [blob_read_write h]
    simp only [bind, Except.bind, Text.Utf8.decode?_encode]
    rfl

end Scalar

/-! ## Fields -/

variable {α β : Type}

/-- The key in front of the occurrences of a field. -/
def Field.key (f : Field α) : Key :=
  ⟨f.tag, f.wireType⟩

/-- A field takes exactly these bytes, with room for so many nested messages. -/
def Field.Takes (f : Field α) (room : Nat) (a : α) (body : Bytes) (b : α) : Prop :=
  ∀ rest, f.merge room a (body ++ rest) = .ok (b, rest)

/-- Some fields take these bytes, occurrence after occurrence. -/
inductive Reads (fields : List (Field α)) (room : Nat) : α → Bytes → α → Prop where
  | nil (a : α) : Reads fields room a [] a
  | cons {a b c : α} {f : Field α} {body more : Bytes} (hf : f ∈ fields)
      (hbody : f.Takes room a body b) (hmore : Reads fields room b more c) :
      Reads fields room a (f.key.write ++ body ++ more) c

namespace Reads

variable {fields others : List (Field α)} {room : Nat} {a b c : α} {xs ys : Bytes}

theorem append (h : Reads fields room a xs b) (h' : Reads fields room b ys c) :
    Reads fields room a (xs ++ ys) c := by
  induction h with
  | nil a => exact h'
  | cons hf hbody _ ih =>
    rw [List.append_assoc]
    exact .cons hf hbody (ih h')

theorem mono (hsub : fields ⊆ others) (h : Reads fields room a xs b) :
    Reads others room a xs b := by
  induction h with
  | nil a => exact .nil a
  | cons hf hbody _ ih => exact .cons (hsub hf) hbody ih

theorem single {f : Field α} {body : Bytes} (h : f.Takes room a body b) :
    Reads [f] room a (f.key.write ++ body) b := by
  have hreads := Reads.cons (List.mem_singleton_self f) h (.nil b)
  rwa [List.append_nil] at hreads

/-- Any number of values, if each of them is taken after those before it. -/
theorem flatMap (f : Field α) (write : β → Bytes) (state : List β → α) {bs : List β}
    (htakes : ∀ before, ∀ b ∈ bs, f.Takes room (state before) (write b) (state (before ++ [b]))) :
    ∀ before, Reads [f] room (state before) (bs.flatMap fun b => f.key.write ++ write b)
      (state (before ++ bs)) := by
  induction bs with
  | nil =>
    intro before
    rw [List.append_nil]
    exact .nil _
  | cons b bs ih =>
    intro before
    have hrest := ih (fun before b' hb' => htakes before b' (List.mem_cons_of_mem _ hb'))
      (before ++ [b])
    rw [List.append_assoc] at hrest
    exact (Reads.single (htakes before b List.mem_cons_self)).append hrest

end Reads

/-- What a field holds can be set, and is `blank` at first. -/
structure Slot (get : α → β) (set : α → β → α) (blank : β) (s : α) : Prop where
  get_set : ∀ v, get (set s v) = v
  set_set : ∀ u v, set (set s u) v = set s v
  set_blank : set s blank = s

namespace Slot

variable {get : α → β} {set : α → β → α} {blank : β} {s : α}

/-- All three at once, as they hold of the fields of a structure by definition. -/
theorem of_eq (h : ∀ u v, (get (set s v), set (set s u) v, set s blank) = (v, set s v, s)) :
    Slot get set blank s where
  get_set v := (Prod.ext_iff.1 (h blank v)).1
  set_set u v := (Prod.ext_iff.1 (Prod.ext_iff.1 (h u v)).2).1
  set_blank := (Prod.ext_iff.1 (Prod.ext_iff.1 (h blank blank)).2).2

theorem get_blank (h : Slot get set blank s) : get s = blank := by
  have hget := h.get_set blank
  rwa [h.set_blank] at hget

end Slot

/-! ## Layouts -/

namespace Layout

/-- The tags of a layout are different from one another and fit into keys. -/
def Numbered (l : Layout α) : Prop :=
  (l.fields.map Field.tag).Nodup ∧ ∀ tag ∈ l.fields.map Field.tag, Tag tag

instance (l : Layout α) : Decidable l.Numbered :=
  inferInstanceAs (Decidable (_ ∧ _))

/-- **What is written of a message is read back**, with room for so many nested messages. -/
structure Faithful (l : Layout α) (depth : Nat) : Prop where
  numbered : l.Numbered
  reads : ∀ a room, depth ≤ room → (l.write a).length < UInt64.size →
    Reads l.fields room l.empty (l.write a) a

variable {l : Layout α}

theorem Numbered.find? (hl : l.Numbered) {f : Field α} (hf : f ∈ l.fields) :
    l.fields.find? (fun g => g.tag == f.tag) = some f := by
  have hnodup := hl.1
  clear hl
  generalize l.fields = fields at hf hnodup
  induction fields with
  | nil => exact absurd hf List.not_mem_nil
  | cons g fields ih =>
    rw [List.map_cons, List.nodup_cons] at hnodup
    rcases List.mem_cons.1 hf with rfl | hf
    · exact List.find?_cons_of_pos (beq_self_eq_true _)
    · have hne : g.tag ≠ f.tag := fun h => hnodup.1 (h ▸ List.mem_map_of_mem hf)
      rw [List.find?_cons_of_neg (by simpa using hne)]
      exact ih hf hnodup.2

theorem mergeField_of_takes (hl : l.Numbered) {f : Field α} (hf : f ∈ l.fields) {room : Nat}
    {a b : α} {body : Bytes} (h : f.Takes room a body b) (rest : Bytes) :
    l.mergeField room f.key a (body ++ rest) = .ok (b, rest) := by
  simp only [mergeField, Field.key, hl.find? hf, if_true, h rest, Except.mapError]

/-- **The bytes that the fields take are merged**, whatever follows them. -/
theorem mergeFields_of_reads (hl : l.Numbered) {room : Nat} {a b : α} {bytes : Bytes}
    (h : Reads l.fields room a bytes b) (rest : Bytes) :
    ∀ {steps : Nat}, bytes.length ≤ steps →
      l.mergeFields room rest.length steps a (bytes ++ rest) = .ok (b, rest) := by
  induction h with
  | nil a =>
    intro steps _
    cases steps with
    | zero => rfl
    | succ steps => rw [mergeFields, if_pos (by simp), List.nil_append]
  | @cons a b c f body more hf hbody hmore ih =>
    intro steps hsteps
    have hkey : 0 < f.key.write.length := List.length_pos_iff.2 (Varint.write_ne_nil _)
    simp only [List.length_append] at hsteps
    obtain ⟨steps, rfl⟩ : ∃ n, steps = n + 1 := ⟨steps - 1, by omega⟩
    have hlong : ¬(f.key.write ++ body ++ more ++ rest).length ≤ rest.length := by
      simp only [List.length_append]
      omega
    have hread : Key.read (f.key.write ++ (body ++ (more ++ rest))) =
        .ok (f.key, body ++ (more ++ rest)) :=
      Key.read_write (hl.2 _ (List.mem_map_of_mem hf)) _
    rw [mergeFields, if_neg hlong]
    simp only [List.append_assoc, located, hread, Except.mapError, bind, Except.bind,
      mergeField_of_takes hl hf hbody]
    exact ih (by omega)

/-- **Reading inverts writing.** -/
theorem Faithful.read_write {depth : Nat} (hl : l.Faithful depth) (hdepth : depth ≤ nestingLimit)
    {a : α} (hsize : (l.write a).length < UInt64.size) : l.read (l.write a) = .ok a := by
  have hmerge := mergeFields_of_reads hl.numbered (hl.reads a nestingLimit hdepth hsize) []
    (Nat.le_refl _)
  rw [List.append_nil] at hmerge
  simp only [read, List.length_nil] at hmerge ⊢
  rw [hmerge]
  rfl

/-- An embedded message is read back, and leaves what follows it. -/
theorem Faithful.mergeEmbedded_write {depth room : Nat} (hl : l.Faithful depth)
    (hroom : depth < room) {a : α} (hsize : (Scalar.blob.write (l.write a)).length < UInt64.size)
    (rest : Bytes) :
    l.mergeEmbedded room l.empty (Scalar.blob.write (l.write a) ++ rest) = .ok (a, rest) := by
  have hlt : (l.write a).length < UInt64.size := by
    have hle : (l.write a).length ≤ (Scalar.blob.write (l.write a)).length := by
      simp [Scalar.blob]
    exact Nat.lt_of_le_of_lt hle hsize
  have hmerge : l.mergeFields (room - 1) rest.length (l.write a ++ rest).length l.empty
      (l.write a ++ rest) = .ok (a, rest) :=
    mergeFields_of_reads hl.numbered (hl.reads a (room - 1) (by omega) hlt) rest (by simp)
  have hread : Varint.read (Scalar.blob.write (l.write a) ++ rest) =
      .ok ((l.write a).length, l.write a ++ rest) := by
    show Varint.read (Varint.write (l.write a).length ++ l.write a ++ rest) = _
    rw [List.append_assoc, Varint.read_write hlt]
  have hstop : (l.write a ++ rest).length - (l.write a).length = rest.length := by simp
  have henough : ¬(l.write a ++ rest).length < (l.write a).length := by simp
  have hpos : room ≠ 0 := by omega
  simp only [mergeEmbedded, if_neg hpos, located, hread, Except.mapError, bind, Except.bind, pure,
    Except.pure, if_neg henough, hstop, hmerge, if_true]

end Layout

/-! ## From fields to layouts -/

namespace Field

/-- What a field writes of `a` takes `s` to `t`. -/
def Copies (depth : Nat) (a : α) (f : Field α) (s t : α) : Prop :=
  ∀ room, depth ≤ room → (f.write a).length < UInt64.size → Reads [f] room s (f.write a) t

variable {get : α → β} {set : α → β → α} {a s : α} {tag depth : Nat} {name : String}

theorem length_lt_of_key {k : Key} {body : Bytes} (h : (k.write ++ body).length < UInt64.size) :
    body.length < UInt64.size := by
  rw [List.length_append] at h
  omega

theorem copies_single {k : Scalar β} {blank : β} (hk : k.Lawful blank)
    (hslot : Slot get set blank s) : (single k tag name get set).Copies depth a s (set s (get a)) := by
  intro room _ hsize
  by_cases hdefault : k.isDefault (get a) = true
  · -- a blank value is not written, and is there already
    have hwrite : (single k tag name get set).write a = [] := if_pos hdefault
    rw [hwrite, hk.eq_blank _ hdefault, hslot.set_blank]
    exact .nil s
  · have hwrite : (single k tag name get set).write a =
        (single k tag name get set).key.write ++ k.write (get a) := if_neg hdefault
    rw [hwrite] at hsize ⊢
    refine .single fun rest => ?_
    dsimp only [Field.single]
    rw [hk.read_write _ _ (length_lt_of_key hsize)]
    rfl

/-- One of several occurrences is no longer than all of them. -/
theorem length_lt_of_mem {k : Key} (write : β → Bytes) {b : β} {bs : List β} (hb : b ∈ bs)
    (h : (bs.flatMap fun b => k.write ++ write b).length < UInt64.size) :
    (write b).length < UInt64.size := by
  obtain ⟨before, after, rfl⟩ := List.append_of_mem hb
  rw [List.flatMap_append, List.flatMap_cons, List.length_append, List.length_append] at h
  exact length_lt_of_key (k := k) (by omega)

theorem copies_repeated {get : α → List β} {set : α → List β → α} {k : Scalar β} {blank : β}
    (hk : k.Lawful blank) (hslot : Slot get set [] s) :
    (repeated k tag name get set).Copies depth a s (set s (get a)) := by
  intro room _ hsize
  have htakes : ∀ before, ∀ b ∈ get a, (repeated k tag name get set).Takes room (set s before)
      (k.write b) (set s (before ++ [b])) := by
    intro before b hb rest
    dsimp only [Field.repeated]
    rw [hk.read_write _ _ (length_lt_of_mem k.write hb hsize)]
    show Except.ok (set (set s before) (get (set s before) ++ [b]), rest) = _
    rw [hslot.get_set, hslot.set_set]
  have hreads := Reads.flatMap _ k.write (set s) htakes []
  rwa [hslot.set_blank] at hreads

variable {l : Layout β}

theorem copies_message {get : α → Option β} {set : α → Option β → α} (hl : l.Faithful depth)
    (hslot : Slot get set none s) :
    (message l tag name get set).Copies (depth + 1) a s (set s (get a)) := by
  intro room hroom hsize
  rcases hget : get a with _ | b
  · have hwrite : (message l tag name get set).write a = [] := by
      show (get a).elim [] _ = []
      rw [hget]
      rfl
    rw [hwrite, hslot.set_blank]
    exact .nil s
  · have hwrite : (message l tag name get set).write a =
        (message l tag name get set).key.write ++ Scalar.blob.write (l.write b) := by
      show (get a).elim [] _ = _
      rw [hget]
      rfl
    rw [hwrite] at hsize ⊢
    refine .single fun rest => ?_
    dsimp only [Field.message]
    rw [hslot.get_blank, Option.getD_none,
      hl.mergeEmbedded_write hroom (length_lt_of_key hsize)]
    rfl

theorem copies_messages {get : α → List β} {set : α → List β → α} (hl : l.Faithful depth)
    (hslot : Slot get set [] s) :
    (messages l tag name get set).Copies (depth + 1) a s (set s (get a)) := by
  intro room hroom hsize
  have htakes : ∀ before, ∀ b ∈ get a, (messages l tag name get set).Takes room (set s before)
      (Scalar.blob.write (l.write b)) (set s (before ++ [b])) := by
    intro before b hb rest
    dsimp only [Field.messages]
    have hlt := length_lt_of_mem (fun b => Scalar.blob.write (l.write b)) hb hsize
    rw [hl.mergeEmbedded_write hroom hlt]
    show Except.ok (set (set s before) (get (set s before) ++ [b]), rest) = _
    rw [hslot.get_set, hslot.set_set]
  have hreads := Reads.flatMap _ (fun b => Scalar.blob.write (l.write b)) (set s) htakes []
  rwa [hslot.set_blank] at hreads

end Field

/-- What some fields write of `a`, one after the other, completes `s` to `a`. -/
inductive Completes (depth : Nat) (a : α) : List (Field α) → α → Prop where
  | nil : Completes depth a [] a
  | cons {s t : α} {f : Field α} {fields : List (Field α)} (hf : f.Copies depth a s t)
      (hfields : Completes depth a fields t) : Completes depth a (f :: fields) s

theorem Completes.reads {depth room : Nat} {a s : α} {fields : List (Field α)}
    (h : Completes depth a fields s) (hroom : depth ≤ room)
    (hsize : (fields.flatMap fun f => f.write a).length < UInt64.size) :
    Reads fields room s (fields.flatMap fun f => f.write a) a := by
  induction h with
  | nil => exact .nil a
  | @cons s t f fields hf hfields ih =>
    rw [List.flatMap_cons, List.length_append] at hsize
    rw [List.flatMap_cons]
    refine ((hf room hroom (by omega)).mono ?_).append ((ih (by omega)).mono ?_)
    · exact List.cons_subset_cons f (List.nil_subset _)
    · exact List.subset_cons_self _ _

/-- A layout is faithful if its fields complete the empty message to any other. -/
theorem Layout.Faithful.of_completes {l : Layout α} {depth : Nat} (hl : decide l.Numbered = true)
    (h : ∀ a, Completes depth a l.fields l.empty) : l.Faithful depth where
  numbered := of_decide_eq_true hl
  reads a _ hroom hsize := (h a).reads hroom hsize

end ChainIndex.Wire
