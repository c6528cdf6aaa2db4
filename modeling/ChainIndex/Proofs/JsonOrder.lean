import ChainIndex.Json.Basic
import Mathlib.Data.List.Forall2
import Mathlib.Data.List.Perm.Basic
import Mathlib.Data.String.Basic

/-!
# The order of JSON members

The members of an object are a map, but a value lists them in some order. `Reordered` relates values
that differ in the order of members only, at any depth; `Proper` values have no two members of one name
in an object, and no part that cannot be read.

* `Proper.canonical`: **a proper value can be put in order**, and nothing else changes.
* `canonical?_spec`: what was put in order is proper, and in order.
* `Reordered.canonical_eq`: values that differ in the order of members only are put in order alike.
* `Reordered.depth_eq`: they are nested equally deep.
-/

namespace ChainIndex.Json

/-- A value without parts, which can be read. -/
def isLeaf : Json → Bool
  | null | bool _ | integer _ | float _ | text _ => true
  | array _ | object _ | unreadable => false

/-- A value without unreadable parts, in whose objects no name stands twice. -/
inductive Proper : Json → Prop where
  | leaf {j : Json} (h : j.isLeaf = true) : Proper j
  | array {items : List Json} (h : ∀ j ∈ items, Proper j) : Proper (.array items)
  | object {members : List (String × Json)} (hnames : (members.map Prod.fst).Nodup)
      (h : ∀ m ∈ members, Proper m.2) : Proper (.object members)

/-- The second value is the first one with its members in another order, at any depth. -/
inductive Reordered : Json → Json → Prop where
  | leaf {j : Json} (h : j.isLeaf = true) : Reordered j j
  | array {items others : List Json} (h : List.Forall₂ Reordered items others) :
      Reordered (.array items) (.array others)
  | object {members others found : List (String × Json)}
      (hnames : members.map Prod.fst = others.map Prod.fst)
      (hvalues : List.Forall₂ Reordered (members.map Prod.snd) (others.map Prod.snd))
      (hperm : others.Perm found) :
      Reordered (.object members) (.object found)

/-- Members of one name whose values differ in order only. -/
def Agrees (m n : String × Json) : Prop :=
  m.1 = n.1 ∧ Reordered m.2 n.2

variable {j k : Json} {items others : List Json} {members found : List (String × Json)}

theorem forall₂_agrees {ms ns : List (String × Json)} :
    List.Forall₂ Agrees ms ns ↔
      ms.map Prod.fst = ns.map Prod.fst ∧
        List.Forall₂ Reordered (ms.map Prod.snd) (ns.map Prod.snd) := by
  constructor
  · intro h
    induction h with
    | nil => exact ⟨rfl, .nil⟩
    | cons hm _ ih => exact ⟨List.cons_eq_cons.2 ⟨hm.1, ih.1⟩, .cons hm.2 ih.2⟩
  · rintro ⟨hnames, hvalues⟩
    induction ms generalizing ns with
    | nil =>
      rw [List.map_nil] at hnames
      rw [List.map_eq_nil_iff.1 hnames.symm]
      exact .nil
    | cons m ms ih =>
      rcases ns with _ | ⟨n, ns⟩
      · cases hnames
      · obtain ⟨hname, hnames⟩ := List.cons_eq_cons.1 hnames
        cases hvalues with
        | cons hvalue hvalues => exact .cons ⟨hname, hvalue⟩ (ih hnames hvalues)

theorem reordered_object : Reordered (.object members) j ↔
    ∃ others found, j = .object found ∧ List.Forall₂ Agrees members others ∧ others.Perm found := by
  constructor
  · intro h
    cases h with
    | leaf h => cases h
    | object hnames hvalues hperm => exact ⟨_, _, rfl, forall₂_agrees.2 ⟨hnames, hvalues⟩, hperm⟩
  · rintro ⟨others, found, rfl, hagrees, hperm⟩
    obtain ⟨hnames, hvalues⟩ := forall₂_agrees.1 hagrees
    exact .object hnames hvalues hperm

theorem reordered_array :
    Reordered (.array items) j ↔ ∃ others, j = .array others ∧ List.Forall₂ Reordered items others := by
  constructor
  · intro h
    cases h with
    | leaf h => cases h
    | array h => exact ⟨_, rfl, h⟩
  · rintro ⟨others, rfl, h⟩
    exact .array h

theorem reordered_leaf (h : j.isLeaf = true) : Reordered j k ↔ k = j := by
  constructor
  · intro hjk
    cases hjk with
    | leaf => rfl
    | array | object => cases h
  · rintro rfl
    exact .leaf h

/-! ## Sorting by names -/

/-- The names of these members become larger and larger. -/
abbrev Ascending (ms : List (String × Json)) : Prop :=
  ms.Pairwise fun m n => m.1 < n.1

theorem place_perm {name : String} {value : Json} {ms : List (String × Json)}
    (h : name ∉ ms.map Prod.fst) : (place name value ms).Perm ((name, value) :: ms) := by
  induction ms with
  | nil => exact List.Perm.refl _
  | cons m ms ih =>
    rw [List.map_cons, List.mem_cons, not_or] at h
    rw [place, if_neg h.1]
    split
    · exact List.Perm.refl _
    · exact ((ih h.2).cons _).trans (List.Perm.swap _ _ _)

theorem mem_place {name : String} {value : Json} {ms : List (String × Json)} {m : String × Json}
    (h : m ∈ place name value ms) : m = (name, value) ∨ m ∈ ms := by
  induction ms with
  | nil => exact .inl (List.mem_singleton.1 h)
  | cons n ms ih =>
    rw [place] at h
    split at h
    · rename_i heq
      rcases List.mem_cons.1 h with rfl | h
      · exact .inl (by rw [heq])
      · exact .inr (List.mem_cons_of_mem _ h)
    · split at h
      · rcases List.mem_cons.1 h with rfl | h
        · exact .inl rfl
        · exact .inr h
      · rcases List.mem_cons.1 h with rfl | h
        · exact .inr List.mem_cons_self
        · exact (ih h).imp_right (List.mem_cons_of_mem _)

theorem place_ascending {name : String} {value : Json} {ms : List (String × Json)}
    (h : Ascending ms) : Ascending (place name value ms) := by
  induction ms with
  | nil => exact List.pairwise_singleton _ _
  | cons n ms ih =>
    obtain ⟨hn, hms⟩ := List.pairwise_cons.1 h
    rw [place]
    split
    · exact List.pairwise_cons.2 ⟨hn, hms⟩
    · rename_i hne
      split
      · rename_i hlt
        refine List.pairwise_cons.2 ⟨fun m hm => ?_, h⟩
        rcases List.mem_cons.1 hm with rfl | hm
        · exact hlt
        · exact hlt.trans (hn m hm)
      · rename_i hle
        refine List.pairwise_cons.2 ⟨fun m hm => ?_, ih hms⟩
        rcases mem_place hm with rfl | hm
        · exact lt_of_le_of_ne (not_lt.1 hle) (Ne.symm hne)
        · exact hn m hm

theorem sorted_ascending (members : List (String × Json)) : Ascending (sorted members) := by
  have hfold (ms : List (String × Json)) : ∀ acc : List (String × Json), Ascending acc →
      Ascending (ms.foldl (fun acc (m : String × Json) => place m.1 m.2 acc) acc) := by
    induction ms with
    | nil => exact fun _ h => h
    | cons m ms ih => exact fun acc h => ih _ (place_ascending h)
  exact hfold members [] List.Pairwise.nil

theorem sorted_subset (members : List (String × Json)) : sorted members ⊆ members := by
  have hfold (ms : List (String × Json)) : ∀ acc : List (String × Json),
      ms.foldl (fun acc (m : String × Json) => place m.1 m.2 acc) acc ⊆ acc ++ ms := by
    induction ms with
    | nil => exact fun acc => List.subset_append_left _ _
    | cons m ms ih =>
      intro acc x hx
      rcases List.mem_append.1 (ih _ hx) with hx | hx
      · rcases mem_place hx with rfl | hx
        · exact List.mem_append_right _ List.mem_cons_self
        · exact List.mem_append_left _ hx
      · exact List.mem_append_right _ (List.mem_cons_of_mem _ hx)
  exact hfold members []

theorem sorted_nodup (members : List (String × Json)) : ((sorted members).map Prod.fst).Nodup :=
  List.pairwise_map.2 ((sorted_ascending members).imp fun hlt => ne_of_lt hlt)

theorem sorted_perm (h : (members.map Prod.fst).Nodup) : (sorted members).Perm members := by
  have hfold (ms : List (String × Json)) : ∀ acc : List (String × Json),
      ((acc ++ ms).map Prod.fst).Nodup →
        (ms.foldl (fun acc (m : String × Json) => place m.1 m.2 acc) acc).Perm (acc ++ ms) := by
    induction ms with
    | nil =>
      intro acc _
      rw [List.append_nil]
      exact List.Perm.refl _
    | cons m ms ih =>
      intro acc hnodup
      have hmiddle : (acc ++ m :: ms).Perm (m :: acc ++ ms) := List.perm_middle
      have hnodup' := (hmiddle.map Prod.fst).nodup_iff.1 hnodup
      rw [List.cons_append, List.map_cons, List.nodup_cons, List.map_append, List.mem_append,
        not_or] at hnodup'
      have hplace : (place m.1 m.2 acc).Perm (m :: acc) := place_perm hnodup'.1.1
      have hrest := ih (place m.1 m.2 acc) (((hplace.append_right ms).map Prod.fst).nodup_iff.2
        ((hmiddle.map Prod.fst).nodup_iff.1 hnodup))
      exact hrest.trans ((hplace.append_right ms).trans hmiddle.symm)
  exact hfold members [] h

theorem eq_of_ascending (h : found.Perm members) (hfound : Ascending found)
    (hmembers : Ascending members) : found = members := by
  refine h.eq_of_pairwise (fun m n _ _ hmn hnm => ?_) hfound hmembers
  exact absurd (hmn.trans hnm) (lt_irrefl _)

theorem sorted_sorted (members : List (String × Json)) : sorted (sorted members) = sorted members :=
  eq_of_ascending (sorted_perm (sorted_nodup members)) (sorted_ascending _) (sorted_ascending _)

/-- Members of distinct names are sorted alike, whatever their order. -/
theorem sorted_eq (hnames : (members.map Prod.fst).Nodup) (h : found.Perm members) :
    sorted found = sorted members := by
  have hnames' : (found.map Prod.fst).Nodup := (h.map Prod.fst).nodup_iff.2 hnames
  have hperm := ((sorted_perm hnames').trans h).trans (sorted_perm hnames).symm
  exact eq_of_ascending hperm (sorted_ascending found) (sorted_ascending members)

/-! ## Putting a value in order -/

theorem canonicalItems?_eq_some {ks : List Json} :
    canonicalItems? items = some ks ↔ List.Forall₂ (fun j k => canonical? j = some k) items ks := by
  induction items generalizing ks with
  | nil => simp [canonicalItems?, eq_comm]
  | cons j items ih =>
    simp only [canonicalItems?, List.forall₂_cons_left_iff, ← ih, Option.bind_eq_bind,
      Option.bind_eq_some_iff, Option.pure_def, Option.some.injEq]
    constructor
    · rintro ⟨k, hk, ks, hks, rfl⟩
      exact ⟨k, ks, hk, hks, rfl⟩
    · rintro ⟨k, ks, hk, hks, rfl⟩
      exact ⟨k, hk, ks, hks, rfl⟩

theorem canonicalMembers?_eq_some {ks : List (String × Json)} :
    canonicalMembers? members = some ks ↔
      List.Forall₂ (fun m k => m.1 = k.1 ∧ canonical? m.2 = some k.2) members ks := by
  induction members generalizing ks with
  | nil => simp [canonicalMembers?, eq_comm]
  | cons m members ih =>
    simp only [canonicalMembers?, List.forall₂_cons_left_iff, ← ih, Option.bind_eq_bind,
      Option.bind_eq_some_iff, Option.pure_def, Option.some.injEq]
    constructor
    · rintro ⟨k, hk, ks, hks, rfl⟩
      exact ⟨(m.1, k), ks, ⟨rfl, hk⟩, hks, rfl⟩
    · rintro ⟨⟨name, k⟩, ks, ⟨rfl, hk⟩, hks, rfl⟩
      exact ⟨k, hk, ks, hks, rfl⟩

theorem names_eq {α β : Type} {f : α → String} {g : β → String} {as : List α}
    {bs : List β} (h : List.Forall₂ (fun a b => f a = g b) as bs) : as.map f = bs.map g := by
  induction h with
  | nil => rfl
  | cons hab _ ih => rw [List.map_cons, List.map_cons, hab, ih]

theorem exists_of_mem_right {α β : Type} {R : α → β → Prop} {as : List α} {bs : List β}
    (h : List.Forall₂ R as bs) {b : β} (hb : b ∈ bs) : ∃ a ∈ as, R a b := by
  induction h with
  | nil => cases hb
  | @cons a b' as bs hab _ ih =>
    rcases List.mem_cons.1 hb with rfl | hb
    · exact ⟨a, List.mem_cons_self, hab⟩
    · obtain ⟨a', ha', hR⟩ := ih hb
      exact ⟨a', List.mem_cons_of_mem _ ha', hR⟩

/-- What each part of a list has a counterpart for. -/
theorem exists_forall₂ {α β : Type} {R : α → β → Prop} {as : List α} (h : ∀ a ∈ as, ∃ b, R a b) :
    ∃ bs, List.Forall₂ R as bs := by
  induction as with
  | nil => exact ⟨[], .nil⟩
  | cons a as ih =>
    obtain ⟨b, hb⟩ := h a List.mem_cons_self
    obtain ⟨bs, hbs⟩ := ih fun x hx => h x (List.mem_cons_of_mem _ hx)
    exact ⟨b :: bs, .cons hb hbs⟩

/-- **A proper value can be put in order.** -/
theorem Proper.canonical (h : Proper j) : ∃ k, j.canonical? = some k ∧ Reordered j k := by
  induction h with
  | @leaf j h =>
    refine ⟨j, ?_, .leaf h⟩
    cases j <;> first | rfl | cases h
  | @array items h ih =>
    obtain ⟨ks, hks⟩ := exists_forall₂ ih
    have hitems := canonicalItems?_eq_some.2 (hks.imp fun _ _ hk => hk.1)
    refine ⟨.array ks, ?_, .array (hks.imp fun _ _ hk => hk.2)⟩
    rw [canonical?, hitems, Option.map_some]
  | @object members hnames h ih =>
    have ih' : ∀ m ∈ members, ∃ k : String × Json,
        (m.1 = k.1 ∧ canonical? m.2 = some k.2) ∧ Agrees m k := by
      intro m hm
      obtain ⟨k, hk, hreordered⟩ := ih m hm
      exact ⟨(m.1, k), ⟨rfl, hk⟩, rfl, hreordered⟩
    obtain ⟨ks, hks⟩ := exists_forall₂ ih'
    have hmembers := canonicalMembers?_eq_some.2 (hks.imp fun _ _ hk => hk.1)
    have hagrees := hks.imp fun _ _ hk => hk.2
    have hnames' : (ks.map Prod.fst).Nodup := (forall₂_agrees.1 hagrees).1 ▸ hnames
    refine ⟨.object (sorted ks), ?_, ?_⟩
    · rw [canonical?, hmembers, Option.map_some]
    · exact reordered_object.2 ⟨ks, sorted ks, rfl, hagrees, (sorted_perm hnames').symm⟩

theorem canonicalItems?_congr
    (h : List.Forall₂ (fun j k => canonical? k = canonical? j) items others) :
    canonicalItems? others = canonicalItems? items := by
  induction h with
  | nil => rfl
  | cons hj _ ih => rw [canonicalItems?, canonicalItems?, hj, ih]

theorem canonicalMembers?_congr
    (h : List.Forall₂ (fun m n => m.1 = n.1 ∧ canonical? n.2 = canonical? m.2) members found) :
    canonicalMembers? found = canonicalMembers? members := by
  induction h with
  | nil => rfl
  | cons hm _ ih => rw [canonicalMembers?, canonicalMembers?, hm.1, hm.2, ih]

/-- Values that differ in the order of members only are put in order alike. -/
theorem Reordered.canonical_eq (h : Reordered j k) (hj : j.Proper) :
    k.canonical? = j.canonical? := by
  induction hj generalizing k with
  | leaf hleaf => rw [(reordered_leaf hleaf).1 h]
  | @array items _ ih =>
    obtain ⟨others, rfl, hothers⟩ := reordered_array.1 h
    have hitems := ((List.forall₂_and_left _ _).2 ⟨ih, hothers⟩).imp fun _ _ hj => hj.1 hj.2
    rw [canonical?, canonical?, canonicalItems?_congr hitems]
  | @object members hnames hproper ih =>
    obtain ⟨others, found, rfl, hagrees, hperm⟩ := reordered_object.1 h
    have hmembers := ((List.forall₂_and_left _ _).2 ⟨ih, hagrees⟩).imp fun m n hm =>
      (⟨hm.2.1, hm.1 hm.2.2⟩ : m.1 = n.1 ∧ canonical? n.2 = canonical? m.2)
    obtain ⟨ks, hks⟩ : ∃ ks, canonicalMembers? members = some ks := by
      obtain ⟨k, hk, -⟩ := (Proper.object hnames hproper).canonical
      rw [canonical?] at hk
      obtain ⟨ks, hks, -⟩ := Option.map_eq_some_iff.1 hk
      exact ⟨ks, hks⟩
    have hothers := (canonicalMembers?_congr hmembers).trans hks
    obtain ⟨ks', hks', hperm'⟩ :=
      List.perm_comp_forall₂ hperm.symm (canonicalMembers?_eq_some.1 hothers)
    have hnames' : (ks.map Prod.fst).Nodup := by
      have heq := names_eq ((canonicalMembers?_eq_some.1 hks).imp fun _ _ hm => hm.1)
      rwa [← heq]
    rw [canonical?, canonical?, canonicalMembers?_eq_some.2 hks', hks, Option.map_some,
      Option.map_some, sorted_eq hnames' hperm']

theorem depthItems_congr (h : List.Forall₂ (fun j k => depth k = depth j) items others) :
    depthItems others = depthItems items := by
  induction h with
  | nil => rfl
  | cons hj _ ih => rw [depthItems, depthItems, hj, ih]

theorem depthMembers_congr (h : List.Forall₂ (fun m n => depth n.2 = depth m.2) members found) :
    depthMembers found = depthMembers members := by
  induction h with
  | nil => rfl
  | cons hm _ ih => rw [depthMembers, depthMembers, hm, ih]

theorem depthMembers_perm (h : members.Perm found) : depthMembers members = depthMembers found := by
  induction h with
  | nil => rfl
  | cons m _ ih => rw [depthMembers, depthMembers, ih]
  | swap m n ms =>
    rw [depthMembers, depthMembers, depthMembers, depthMembers]
    exact max_left_comm _ _ _
  | trans _ _ ih₁ ih₂ => exact ih₁.trans ih₂

theorem depth_le_depthItems (h : j ∈ items) : j.depth ≤ depthItems items := by
  induction items with
  | nil => cases h
  | cons x items ih =>
    rw [depthItems]
    rcases List.mem_cons.1 h with rfl | h
    · exact le_max_left _ _
    · exact le_max_of_le_right (ih h)

theorem depth_le_depthMembers {m : String × Json} (h : m ∈ members) :
    m.2.depth ≤ depthMembers members := by
  induction members with
  | nil => cases h
  | cons x members ih =>
    rw [depthMembers]
    rcases List.mem_cons.1 h with rfl | h
    · exact le_max_left _ _
    · exact le_max_of_le_right (ih h)

/-- Values that differ in the order of members only are nested equally deep. -/
theorem Reordered.depth_eq (h : Reordered j k) (hj : j.Proper) : k.depth = j.depth := by
  induction hj generalizing k with
  | leaf hleaf => rw [(reordered_leaf hleaf).1 h]
  | @array items _ ih =>
    obtain ⟨others, rfl, hothers⟩ := reordered_array.1 h
    have hitems := ((List.forall₂_and_left _ _).2 ⟨ih, hothers⟩).imp fun _ _ hj => hj.1 hj.2
    rw [depth, depth, depthItems_congr hitems]
  | @object members _ _ ih =>
    obtain ⟨others, found, rfl, hagrees, hperm⟩ := reordered_object.1 h
    have hmembers := ((List.forall₂_and_left _ _).2 ⟨ih, hagrees⟩).imp fun _ _ hm => hm.1 hm.2.2
    rw [depth, depth, ← depthMembers_perm hperm, depthMembers_congr hmembers]

/-- What was put in order is proper, and stays as it is. -/
theorem canonical?_spec : ∀ {j k : Json}, j.canonical? = some k →
    k.Proper ∧ k.canonical? = some k
  | .array items, k, h => by
    rw [canonical?] at h
    obtain ⟨ks, hks, rfl⟩ := Option.map_eq_some_iff.1 h
    have hspec : ∀ x ∈ ks, x.Proper ∧ x.canonical? = some x := by
      intro x hx
      obtain ⟨j, hj, hjx⟩ := exists_of_mem_right (canonicalItems?_eq_some.1 hks) hx
      exact canonical?_spec hjx
    have hitems := canonicalItems?_eq_some.2 (List.forall₂_same.2 fun x hx => (hspec x hx).2)
    refine ⟨.array fun x hx => (hspec x hx).1, ?_⟩
    rw [canonical?, hitems, Option.map_some]
  | .object members, k, h => by
    rw [canonical?] at h
    obtain ⟨ks, hks, rfl⟩ := Option.map_eq_some_iff.1 h
    have hspec : ∀ x ∈ sorted ks, x.2.Proper ∧ x.2.canonical? = some x.2 := by
      intro x hx
      obtain ⟨m, hm, -, hmx⟩ := exists_of_mem_right (canonicalMembers?_eq_some.1 hks)
        (sorted_subset ks hx)
      have hsmall : sizeOf m.2 < sizeOf members := by
        have hm' := List.sizeOf_lt_of_mem hm
        obtain ⟨name, value⟩ := m
        simp only [Prod.mk.sizeOf_spec] at hm'
        show sizeOf value < _
        omega
      exact canonical?_spec hmx
    have hmembers := canonicalMembers?_eq_some.2
      (List.forall₂_same.2 fun x hx => ⟨rfl, (hspec x hx).2⟩)
    refine ⟨.object (sorted_nodup ks) fun x hx => (hspec x hx).1, ?_⟩
    rw [canonical?, hmembers, Option.map_some, sorted_sorted]
  | .null, k, h | .bool _, k, h | .integer _, k, h | .float _, k, h | .text _, k, h => by
    cases h
    exact ⟨.leaf rfl, rfl⟩
termination_by j => sizeOf j

end ChainIndex.Json
