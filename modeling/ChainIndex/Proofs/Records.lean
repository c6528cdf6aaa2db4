import ChainIndex.Json.Shape
import ChainIndex.Keyed
import ChainIndex.Proofs.Identifiers
import ChainIndex.Proofs.JsonOrder
import ChainIndex.Proofs.TimeText

/-!
# What a codec writes, it reads back

A codec restores a value when what it writes is proper JSON, and reading it gives the value back in
whatever order the members of its objects stand. `Exact` codecs restore every value of their type.

* Scalars, lists, optional values and maps: `text_exact` to `Exact.map`, each from the codec of its
  parts.
* `Leads`: what the fields of a record make of it, one after the other, with a lemma for each kind of
  field.
* `Shape.restores`: **a record is restored where its fields lead back to it**, if no field answers to
  the name of another one.
-/

namespace ChainIndex.Json

namespace Codec

variable {α β : Type}

/-- What the codec writes for `a` is proper, and in whatever order its members stand, a value that `Q`
holds of is read. -/
structure Restores (c : Codec α) (a : α) (Q : α → Prop) : Prop where
  proper : (c.write a).Proper
  read : ∀ j, Reordered (c.write a) j → ∃ b, c.read j = some b ∧ Q b

/-- Every value is read back as it was. -/
def Exact (c : Codec α) : Prop :=
  ∀ a, c.Restores a (· = a)

variable {c : Codec α} {a : α} {Q : α → Prop}

theorem Restores.imp {P : α → Prop} (h : c.Restores a Q) (himp : ∀ b, Q b → P b) :
    c.Restores a P := by
  refine ⟨h.proper, fun j hj => ?_⟩
  obtain ⟨b, hb, hQ⟩ := h.read j hj
  exact ⟨b, hb, himp b hQ⟩

theorem Restores.of_leaf {b : α} (hleaf : (c.write a).isLeaf = true)
    (hread : c.read (c.write a) = some b) (hb : Q b) : c.Restores a Q := by
  refine ⟨.leaf hleaf, fun j hj => ⟨b, ?_, hb⟩⟩
  rw [(reordered_leaf hleaf).1 hj]
  exact hread

/-- What is written can be put in order, and is then read. -/
theorem Restores.canonical (h : c.Restores a Q) :
    ∃ j b, (c.write a).canonical? = some j ∧ c.read j = some b ∧ Q b := by
  obtain ⟨j, hj, hreordered⟩ := h.proper.canonical
  obtain ⟨b, hb, hQ⟩ := h.read j hreordered
  exact ⟨j, b, hj, hb, hQ⟩

/-! ## Scalars -/

theorem text_exact : text.Exact := fun _ => .of_leaf rfl rfl rfl

theorem bool_exact : bool.Exact := fun _ => .of_leaf rfl rfl rfl

theorem below_restores {bound n : Nat} (h : n < bound) : (below bound).Restores n (· = n) := by
  have hrange : (0 : Int) ≤ n ∧ (n : Int) < bound := by omega
  refine .of_leaf (b := n) rfl ?_ rfl
  simp only [below]
  rw [if_pos hrange, Int.toNat_natCast]

theorem via_restores {d : Codec β} {represent : α → β} {restore : β → Option α}
    (h : d.Restores (represent a) (· = represent a)) (hrestore : restore (represent a) = some a) :
    (d.via represent restore).Restores a (· = a) := by
  refine ⟨h.proper, fun j hj => ?_⟩
  obtain ⟨b, hb, rfl⟩ := h.read j hj
  refine ⟨a, ?_, rfl⟩
  simp only [via]
  rw [hb, Option.bind_some, hrestore]

theorem word32_exact : word32.Exact := fun n =>
  via_restores (below_restores n.toNat_lt) (congrArg some (UInt32.ofNat_toNat))

theorem word64_exact : word64.Exact := fun n =>
  via_restores (below_restores n.toNat_lt) (congrArg some (UInt64.ofNat_toNat))

theorem int32_exact : int32.Exact := by
  intro n
  have hrange : -0x80000000 ≤ n.toInt ∧ n.toInt < 0x80000000 := by
    have hlow := n.le_toInt
    have hhigh := n.toInt_lt
    omega
  refine .of_leaf (b := n) rfl ?_ rfl
  simp only [int32]
  rw [if_pos hrange, Int32.ofInt_toInt]

theorem bigInt_exact : bigInt.Exact := fun n =>
  via_restores (text_exact _) (Text.signed?_toString n)

/-- A value that is in the order of names already is read as it is. -/
theorem free_restores {j : Json} (h : j.canonical? = some j) : free.Restores j (· = j) := by
  have hproper : j.Proper := (canonical?_spec h).1
  exact ⟨hproper, fun k (hk : Reordered j k) => ⟨j, (hk.canonical_eq hproper).trans h, rfl⟩⟩

/-! ## Lists and optional values -/

theorem mapM_eq_some {γ : Type} {f : γ → Option β} {items : List γ} {values : List β} :
    items.mapM f = some values ↔ List.Forall₂ (fun x v => f x = some v) items values := by
  induction items generalizing values with
  | nil => simp [eq_comm]
  | cons x items ih =>
    simp only [List.mapM_cons, List.forall₂_cons_left_iff, ← ih, Option.bind_eq_bind,
      Option.bind_eq_some_iff, Option.pure_def, Option.some.injEq]
    constructor
    · rintro ⟨v, hv, values, hvalues, rfl⟩
      exact ⟨v, values, hv, hvalues, rfl⟩
    · rintro ⟨v, values, hv, hvalues, rfl⟩
      exact ⟨v, hv, values, hvalues, rfl⟩

theorem restores_list {R : α → α → Prop} {as : List α} (h : ∀ a ∈ as, c.Restores a (R a)) :
    c.list.Restores as (List.Forall₂ R as) := by
  constructor
  · refine .array fun j hj => ?_
    obtain ⟨a, ha, rfl⟩ := List.mem_map.1 hj
    exact (h a ha).proper
  · intro j hj
    obtain ⟨items, rfl, hitems⟩ := reordered_array.1 hj
    rw [List.forall₂_map_left_iff] at hitems
    -- each item is read on its own
    obtain ⟨bs, hread, hR⟩ : ∃ bs, List.Forall₂ (fun k b => c.read k = some b) items bs ∧
        List.Forall₂ R as bs := by
      clear hj
      induction hitems with
      | nil => exact ⟨[], .nil, .nil⟩
      | @cons a k as items hk _ ih =>
        obtain ⟨b, hb, hab⟩ := (h a List.mem_cons_self).read k hk
        obtain ⟨bs, hbs, hR⟩ := ih fun x hx => h x (List.mem_cons_of_mem _ hx)
        exact ⟨b :: bs, .cons hb hbs, .cons hab hR⟩
    exact ⟨bs, mapM_eq_some.2 hread, hR⟩

theorem Exact.list (h : c.Exact) : c.list.Exact := by
  intro as
  have heq : ∀ a ∈ as, c.Restores a fun b => a = b := fun a _ => (h a).imp fun b hb => hb.symm
  exact (restores_list heq).imp fun bs hbs => (List.forall₂_eq_eq_eq ▸ hbs : as = bs).symm

theorem eq_null_of_reordered {j : Json} (h : Reordered j .null) : j = .null := by
  cases h
  rfl

theorem option_read {j : Json} (h : j ≠ .null) : c.option.read j = (c.read j).map some := by
  cases j <;> first | rfl | exact absurd rfl h

/-- Values that are never written as null may be left out. -/
theorem Exact.option (h : c.Exact) (hnull : ∀ a, c.write a ≠ .null) : c.option.Exact := by
  intro o
  cases o with
  | none => exact .of_leaf rfl rfl rfl
  | some a =>
    refine ⟨(h a).proper, fun j hj => ?_⟩
    obtain ⟨b, hb, rfl⟩ := (h a).read j hj
    have hj' : j ≠ .null := by
      rintro rfl
      exact hnull b (eq_null_of_reordered hj)
    refine ⟨some b, ?_, rfl⟩
    rw [option_read hj', hb, Option.map_some]

/-! ## Maps -/

theorem insert_eq_append {m : Keyed α} {key : String} {value : α} (h : key ∉ m.keys) :
    m.insert key value = m ++ [(key, value)] := by
  unfold Keyed.insert
  induction m with
  | nil => rfl
  | cons p rest ih =>
    rw [Keyed.keys, List.map_cons, List.mem_cons, not_or] at h
    rw [Keyed.alter, if_neg (Ne.symm h.1), ih h.2, List.cons_append]

/-- Pairs of distinct keys are a map as they stand. -/
theorem ofList_eq {pairs : List (String × α)} (h : (pairs.map Prod.fst).Nodup) :
    Keyed.ofList pairs = pairs := by
  have hfold (ps : List (String × α)) : ∀ acc : Keyed α, ((acc ++ ps).map Prod.fst).Nodup →
      ps.foldl (fun (m : Keyed α) p => m.insert p.1 p.2) acc = acc ++ ps := by
    induction ps with
    | nil => exact fun acc _ => (List.append_nil acc).symm
    | cons p ps ih =>
      intro acc hnodup
      have hnew : p.1 ∉ Keyed.keys acc := by
        rw [List.map_append, List.map_cons] at hnodup
        intro hmem
        exact (List.nodup_append.1 hnodup).2.2 _ hmem _ List.mem_cons_self rfl
      rw [List.foldl_cons, insert_eq_append hnew, ih, List.append_assoc, List.singleton_append]
      rwa [List.append_assoc, List.singleton_append]
  exact hfold pairs [] h

/-- A map is read back with its keys in the order in which they are found. -/
theorem Exact.map (hc : c.Exact) {m : Keyed α} (hm : m.keys.Nodup) :
    (Keyed.codec c).Restores m fun n => List.Perm n m := by
  constructor
  · refine .object ?_ fun p hp => ?_
    · rw [List.map_map]
      exact hm
    · obtain ⟨q, -, rfl⟩ := List.mem_map.1 hp
      exact (hc q.2).proper
  · intro j hj
    obtain ⟨others, found, rfl, hagrees, hperm⟩ := reordered_object.1 hj
    rw [List.forall₂_map_left_iff] at hagrees
    have hread : List.Forall₂ (fun o p => (c.read o.2).map (o.1, ·) = some p) others m := by
      refine hagrees.flip.imp fun o p hop => ?_
      obtain ⟨v, hv, rfl⟩ := (hc p.2).read o.2 hop.2
      rw [hv, Option.map_some, ← hop.1]
    obtain ⟨n, hn, hnm⟩ := List.perm_comp_forall₂ hperm.symm hread
    have hkeys : (n.map Prod.fst).Nodup := (hnm.map Prod.fst).nodup_iff.2 hm
    refine ⟨n, ?_, hnm⟩
    show (found.mapM fun p => (c.read p.2).map (p.1, ·)).map Keyed.ofList = some n
    rw [mapM_eq_some.2 hn, Option.map_some, ofList_eq hkeys]

end Codec

/-! ## Records -/

section Records

variable {α β : Type} {a b : α} {Q : α → Prop} {f : Field α} {fs : List (Field α)}

/-- Reading what the field wrote for `a`, if it wrote anything, takes the record `b` to one that `Q`
holds of. -/
structure Field.Restores (f : Field α) (a b : α) (Q : α → Prop) : Prop where
  left_out : f.write a = none → f.presence ≠ .required ∧ Q b
  written : ∀ j, f.write a = some j →
    j.Proper ∧ ∀ k, Reordered j k → ∃ b', f.read k b = some b' ∧ Q b'

/-- Reading what these fields wrote for `a` takes the record `b` to one that `Q` holds of. -/
def Leads (a : α) : List (Field α) → α → (α → Prop) → Prop
  | [], b, Q => Q b
  | f :: fs, b, Q => f.Restores a b fun b' => Leads a fs b' Q

theorem Leads.always {c : Codec β} {get : α → β} {set : α → β → α} {R : β → Prop}
    (hwrite : f.write = fun a => some (c.write (get a)))
    (hread : f.read = fun j b => (c.read j).map (set b)) (hc : c.Restores (get a) R)
    (h : ∀ v, R v → Leads a fs (set b v) Q) : Leads a (f :: fs) b Q := by
  constructor
  · rw [hwrite]
    exact nofun
  · rw [hwrite, hread]
    rintro j hj
    obtain rfl := Option.some.inj hj
    refine ⟨hc.proper, fun k hk => ?_⟩
    obtain ⟨v, hv, hR⟩ := hc.read k hk
    refine ⟨set b v, ?_, h v hR⟩
    show (c.read k).map (set b) = _
    rw [hv, Option.map_some]

/-- A field that is left out for one value only, which is the one to start from. -/
theorem Leads.sometimes {name : String} {c : Codec β} {get : α → β} {set : α → β → α}
    {isEmpty : β → Bool} {R : β → Prop} (hc : c.Restores (get a) R)
    (hempty : isEmpty (get a) = true → ∃ v, R v ∧ set b v = b)
    (h : ∀ v, R v → Leads a fs (set b v) Q) :
    Leads a (.omitted name c get set isEmpty :: fs) b Q := by
  constructor
  · intro hnone
    have hempty' : isEmpty (get a) = true := by
      by_contra hfull
      simp only [Field.omitted, if_neg hfull] at hnone
      cases hnone
    obtain ⟨v, hR, hset⟩ := hempty hempty'
    have hlead := h v hR
    rw [hset] at hlead
    exact ⟨by simp only [Field.omitted]; decide, hlead⟩
  · intro j hj
    have hfull : ¬isEmpty (get a) = true := by
      intro hempty'
      simp only [Field.omitted, if_pos hempty'] at hj
      cases hj
    simp only [Field.omitted, if_neg hfull] at hj
    obtain rfl := Option.some.inj hj
    refine ⟨hc.proper, fun k hk => ?_⟩
    obtain ⟨v, hv, hR⟩ := hc.read k hk
    refine ⟨set b v, ?_, h v hR⟩
    show (c.read k).map (set b) = _
    rw [hv, Option.map_some]

theorem Leads.required {name : String} {c : Codec β} {get : α → β} {set : α → β → α}
    (hc : c.Exact) (h : Leads a fs (set b (get a)) Q) :
    Leads a (.required name c get set :: fs) b Q :=
  .always rfl rfl (hc _) fun _ hv => hv ▸ h

theorem Leads.defaulted {name : String} {c : Codec β} {get : α → β} {set : α → β → α}
    (hc : c.Exact) (h : Leads a fs (set b (get a)) Q) :
    Leads a (.defaulted name c get set :: fs) b Q :=
  .always rfl rfl (hc _) fun _ hv => hv ▸ h

theorem Leads.nullable {name : String} {c : Codec β} {get : α → Option β}
    {set : α → Option β → α} (hc : c.option.Exact) (h : Leads a fs (set b (get a)) Q) :
    Leads a (.nullable name c get set :: fs) b Q :=
  .always rfl rfl (hc _) fun _ hv => hv ▸ h

theorem Leads.omitted {name : String} {c : Codec β} {get : α → β} {set : α → β → α}
    {isEmpty : β → Bool} {d : β} (hc : c.Restores (get a) (· = get a))
    (hempty : isEmpty (get a) = true → get a = d) (hd : set b d = b)
    (h : Leads a fs (set b (get a)) Q) : Leads a (.omitted name c get set isEmpty :: fs) b Q := by
  refine .sometimes hc (fun h' => ⟨get a, rfl, ?_⟩) fun _ hv => hv ▸ h
  rw [hempty h', hd]

/-- A list that is left out when it is empty. -/
theorem Leads.list {name : String} {c : Codec β} {get : α → List β} {set : α → List β → α}
    {R : β → β → Prop} (hc : ∀ x ∈ get a, c.Restores x (R x)) (hb : set b [] = b)
    (h : ∀ ys, List.Forall₂ R (get a) ys → Leads a fs (set b ys) Q) :
    Leads a (.omitted name c.list get set List.isEmpty :: fs) b Q := by
  refine .sometimes (Codec.restores_list hc) (fun hempty => ⟨[], ?_, hb⟩) h
  rw [List.isEmpty_iff.1 hempty]
  exact .nil

/-- A map that is left out when it is empty. -/
theorem Leads.map {name : String} {c : Codec β} {get : α → Keyed β} {set : α → Keyed β → α}
    (hc : c.Exact) (hkeys : (get a).keys.Nodup) (hb : set b [] = b)
    (h : ∀ m, List.Perm m (get a) → Leads a fs (set b m) Q) :
    Leads a (.omitted name (Keyed.codec c) get set List.isEmpty :: fs) b Q := by
  refine .sometimes (hc.map hkeys) (fun hempty => ⟨[], ?_, hb⟩) h
  rw [List.isEmpty_iff.1 hempty]

theorem Leads.done (h : Q b) : Leads a [] b Q := h

/-- What these fields write is proper, as each of them was read. -/
theorem Leads.proper (h : Leads a fs b Q) :
    ∀ f ∈ fs, ∀ j, f.write a = some j → j.Proper := by
  induction fs generalizing b with
  | nil => exact nofun
  | cons g fs ih =>
    obtain ⟨b', hrest⟩ : ∃ b', Leads a fs b' Q := by
      rcases hw : g.write a with _ | j
      · exact ⟨b, (h.left_out hw).2⟩
      · obtain ⟨hproper, hread⟩ := h.written j hw
        obtain ⟨k, -, hk⟩ := hproper.canonical
        obtain ⟨b', -, hb'⟩ := hread k hk
        exact ⟨b', hb'⟩
    intro f hf j hj
    rcases List.mem_cons.1 hf with rfl | hf
    · exact (h.written j hj).1
    · exact ih hrest f hf j hj

/-- The member that a field is written as, if it is written. -/
def Field.member (f : Field α) (a : α) : Option (String × Json) :=
  (f.write a).map (f.name, ·)

/-- Each field finds the member it was written as, and no other one. -/
def Finds (a : α) (found : List (String × Json)) (f : Field α) : Prop :=
  List.Forall₂ Agrees (f.member a).toList (found.filter fun m => f.answersTo m.1)

theorem Leads.read {found : List (String × Json)} (hfound : ∀ f ∈ fs, Finds a found f)
    (h : Leads a fs b Q) : ∃ b', fs.foldlM (Shape.readMember found) b = some b' ∧ Q b' := by
  induction fs generalizing b with
  | nil => exact ⟨b, rfl, h⟩
  | cons f fs ih =>
    have hrest : ∀ g ∈ fs, Finds a found g := fun g hg => hfound g (List.mem_cons_of_mem _ hg)
    have hf : Finds a found f := hfound f List.mem_cons_self
    unfold Finds Field.member at hf
    obtain ⟨b', hread, hleads⟩ : ∃ b', Shape.readMember found b f = some b' ∧ Leads a fs b' Q := by
      rcases hw : f.write a with _ | j
      · obtain ⟨hpresence, hleads⟩ := h.left_out hw
        rw [hw, Option.map_none, Option.toList_none, List.forall₂_nil_left_iff] at hf
        refine ⟨b, ?_, hleads⟩
        rw [Shape.readMember, hf]
        exact if_neg hpresence
      · rw [hw, Option.map_some, Option.toList_some, List.forall₂_cons_left_iff] at hf
        obtain ⟨m, ms, hm, hnil, hfilter⟩ := hf
        rw [List.forall₂_nil_left_iff] at hnil
        subst hnil
        obtain ⟨b', hb', hleads⟩ := (h.written j hw).2 m.2 hm.2
        refine ⟨b', ?_, hleads⟩
        rw [Shape.readMember, hfilter]
        exact hb'
    obtain ⟨r, hr, hQ⟩ := ih hrest hleads
    refine ⟨r, ?_, hQ⟩
    rw [List.foldlM_cons, hread]
    exact hr

/-- Neither field answers to the name of the other one. -/
def Field.Apart (f g : Field α) : Prop :=
  f.answersTo g.name = false ∧ g.answersTo f.name = false

instance : DecidableRel (Field.Apart (α := α)) := fun _ _ =>
  inferInstanceAs (Decidable (_ ∧ _))

theorem Field.answersTo_self (f : Field α) : f.answersTo f.name = true := by
  rw [answersTo, beq_self_eq_true, Bool.true_or]

theorem Field.Apart.ne {g : Field α} (h : f.Apart g) : f.name ≠ g.name := by
  intro heq
  have hg := h.1
  rw [← heq, f.answersTo_self] at hg
  cases hg

theorem name_of_mem_member {m : String × Json} (h : m ∈ f.member a) : m.1 = f.name := by
  obtain ⟨j, -, rfl⟩ := Option.map_eq_some_iff.1 h
  rfl

theorem filter_member_self :
    (f.member a).toList.filter (fun m => f.answersTo m.1) = (f.member a).toList := by
  rw [List.filter_eq_self]
  intro m hm
  rw [name_of_mem_member (Option.mem_toList.1 hm), f.answersTo_self]

theorem filter_member_apart {g : Field α} (h : f.answersTo g.name = false) :
    (g.member a).toList.filter (fun m => f.answersTo m.1) = [] := by
  rw [List.filter_eq_nil_iff]
  intro m hm
  rw [name_of_mem_member (Option.mem_toList.1 hm), h]
  exact Bool.false_ne_true

/-- Among the members of a record, a field answers to its own only. -/
theorem filter_members (h : fs.Pairwise Field.Apart) (hf : f ∈ fs) :
    (fs.filterMap (Field.member · a)).filter (fun m => f.answersTo m.1) = (f.member a).toList := by
  rw [List.filterMap_eq_flatMap_toList, List.filter_flatMap]
  induction fs with
  | nil => cases hf
  | cons g fs ih =>
    obtain ⟨hg, hfs⟩ := List.pairwise_cons.1 h
    rw [List.flatMap_cons]
    rcases List.mem_cons.1 hf with rfl | hf
    · have hrest : fs.flatMap (fun g => (g.member a).toList.filter fun m => f.answersTo m.1) = [] :=
        List.flatMap_eq_nil_iff.2 fun g hgs => filter_member_apart (hg g hgs).1
      rw [filter_member_self, hrest, List.append_nil]
    · rw [filter_member_apart (hg f hf).2, List.nil_append, ih hfs hf]

theorem finds_of_reordered {others found : List (String × Json)} (h : fs.Pairwise Field.Apart)
    (hagrees : List.Forall₂ Agrees (fs.filterMap (Field.member · a)) others)
    (hperm : others.Perm found) (hf : f ∈ fs) : Finds a found f := by
  have hsame : ∀ {m n : String × Json}, Agrees m n → (f.answersTo m.1 ↔ f.answersTo n.1) :=
    fun hmn => by rw [hmn.1]
  have hfilter := List.rel_filter (R := Agrees) (fun _ _ hmn => hsame hmn) hagrees
  rw [filter_members h hf] at hfilter
  have hperm' := hperm.filter fun m => f.answersTo m.1
  -- at most one member is left, so its place says nothing
  unfold Finds
  rcases hm : f.member a with _ | m <;> rw [hm] at hfilter
  · rw [Option.toList_none, List.forall₂_nil_left_iff] at hfilter ⊢
    rw [hfilter] at hperm'
    exact hperm'.symm.eq_nil
  · rw [Option.toList_some] at hfilter ⊢
    obtain ⟨n, ns, hn, hnil, heq⟩ := List.forall₂_cons_left_iff.1 hfilter
    rw [List.forall₂_nil_left_iff] at hnil
    subst hnil
    rw [heq] at hperm'
    rw [← List.singleton_perm.1 hperm']
    exact .cons hn .nil

/-- No field answers to the name of another one. -/
def Shape.Distinct (s : Shape α) : Prop :=
  s.fields.Pairwise Field.Apart

instance (s : Shape α) : Decidable s.Distinct :=
  inferInstanceAs (Decidable (s.fields.Pairwise Field.Apart))

/-- **A record is read back where its fields lead to it.** -/
theorem Shape.restores {s : Shape α} (hs : s.Distinct) (h : Leads a s.fields s.empty Q) :
    s.codec.Restores a Q := by
  constructor
  · refine .object ?_ fun m hm => ?_
    · refine List.pairwise_map.2 (List.pairwise_filterMap.2 (hs.imp fun hfg m hm n hn => ?_))
      rw [name_of_mem_member hm, name_of_mem_member hn]
      exact hfg.ne
    · obtain ⟨f, hf, hm⟩ := List.mem_filterMap.1 hm
      obtain ⟨j, hj, rfl⟩ := Option.map_eq_some_iff.1 hm
      exact h.proper f hf j hj
  · intro j hj
    obtain ⟨others, found, rfl, hagrees, hperm⟩ := reordered_object.1 hj
    exact h.read fun f hf => finds_of_reordered hs hagrees hperm hf

/-! ## What is left out -/

theorem Shape.mem_members {s : Shape α} {j : Json} (hf : f ∈ s.fields) (h : f.write a = some j) :
    (f.name, j) ∈ s.members a :=
  List.mem_filterMap.2 ⟨f, hf, by rw [h, Option.map_some]⟩

/-- Records whose fields are written alike are written alike. -/
theorem Shape.write_congr {s t : Shape α}
    (h : List.Forall₂ (fun f g => f.member a = g.member a) s.fields t.fields) :
    s.write a = t.write a := by
  have hmembers : s.members a = t.members a := by
    show s.fields.filterMap (Field.member · a) = t.fields.filterMap (Field.member · a)
    generalize s.fields = fs, t.fields = gs at h
    induction h with
    | nil => rfl
    | cons hfg _ ih => rw [List.filterMap_cons, List.filterMap_cons, hfg, ih]
  rw [write, write, hmembers]

theorem lookup_member_self : (f.member a).toList.lookup f.name = f.write a := by
  unfold Field.member
  rcases f.write a with _ | j
  · rfl
  · rw [Option.map_some, Option.toList_some, List.lookup_cons_self]

theorem lookup_member_ne {g : Field α} (h : f.name ≠ g.name) :
    (g.member a).toList.lookup f.name = none := by
  rw [List.lookup_eq_none_iff]
  intro m hm
  rw [name_of_mem_member (Option.mem_toList.1 hm)]
  simpa using h

/-- Under the name of a field stands what the field is written as. -/
theorem Shape.member?_write {s : Shape α} (hs : s.Distinct) (hf : f ∈ s.fields) :
    (s.write a).member? f.name = f.write a := by
  show (s.fields.filterMap (Field.member · a)).lookup f.name = f.write a
  unfold Distinct at hs
  rw [List.filterMap_eq_flatMap_toList]
  generalize s.fields = fs at hs hf
  induction fs with
  | nil => cases hf
  | cons g fs ih =>
    obtain ⟨hg, hfs⟩ := List.pairwise_cons.1 hs
    rw [List.flatMap_cons, List.lookup_append]
    rcases List.mem_cons.1 hf with rfl | hf
    · have hrest : (fs.flatMap fun g => (g.member a).toList).lookup f.name = none := by
        rw [List.lookup_eq_none_iff]
        intro m hm
        obtain ⟨g, hgs, hm⟩ := List.mem_flatMap.1 hm
        rw [name_of_mem_member (Option.mem_toList.1 hm)]
        simpa using (hg g hgs).ne
      rw [lookup_member_self, hrest, Option.or_none]
    · rw [lookup_member_ne (hg f hf).ne.symm, Option.none_or, ih hfs hf]

/-- A field is left out where its value is empty, and only there. -/
theorem Shape.member?_omitted {s : Shape α} {name : String} {c : Codec β} {get : α → β}
    {set : α → β → α} {isEmpty : β → Bool} {P : Prop} (hs : s.Distinct) (i : Nat)
    (hempty : isEmpty (get a) = true ↔ P)
    (hf : s.fields[i]? = some (.omitted name c get set isEmpty)) :
    (s.write a).member? name = none ↔ P := by
  have hmember : (s.write a).member? name = (Field.omitted name c get set isEmpty).write a :=
    member?_write hs (List.mem_of_getElem? hf)
  rw [hmember, ← hempty]
  by_cases h : isEmpty (get a) = true
  · exact ⟨fun _ => h, fun _ => if_pos h⟩
  · have hwritten : (Field.omitted name c get set isEmpty).write a = some (c.write (get a)) :=
      if_neg h
    rw [hwritten]
    exact ⟨nofun, fun h' => absurd h' h⟩

end Records

end ChainIndex.Json
