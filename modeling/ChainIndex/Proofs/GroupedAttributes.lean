import ChainIndex.Proofs.JsonReading
import ChainIndex.Proofs.Payments

/-!
# Attributes are grouped by key

A list of attributes is read in one pass, and what is kept depends on the key: three keys keep their last
value, five have a list of their own, and the others share two maps. What a prefix of the list leaves is
known from the values of each key in it (`Attributes.grouping`), and one more attribute adds one value to
one key (`Attributes.grouping_concat`). So no value is dropped, moved or put under another key.

* `Keyed.groups_collect`: values collected under their keys are grouped.
* `Attributes.ofPairs_eq`: what is read from a list is its grouping.
* `Attributes.keptAs_valueText`: a value that is no text is kept as one of its JSON texts.
* `Attributes.grouped_by_key`: **a list is refused only for an item without a key, and else every
  occurrence of a key is kept.**
-/

namespace ChainIndex

/-- The values of a key, in the order of the list. -/
def valuesOf (pairs : List (String × String)) (key : String) : List String :=
  (pairs.filter fun p => p.1 = key).map Prod.snd

/-- The last value of a key; empty if it has none. -/
def lastOf (pairs : List (String × String)) (key : String) : String :=
  (valuesOf pairs key).getLastD ""

theorem valuesOf_append (pairs others : List (String × String)) (key : String) :
    valuesOf (pairs ++ others) key = valuesOf pairs key ++ valuesOf others key := by
  rw [valuesOf, List.filter_append, List.map_append]
  rfl

theorem valuesOf_concat (pairs : List (String × String)) (p : String × String) (key : String) :
    valuesOf (pairs ++ [p]) key = valuesOf pairs key ++ if p.1 = key then [p.2] else [] := by
  have hlast : valuesOf [p] key = if p.1 = key then [p.2] else [] := by
    unfold valuesOf
    by_cases h : p.1 = key <;> simp [h]
  rw [valuesOf_append, hlast]

theorem lastOf_concat (pairs : List (String × String)) (p : String × String) (key : String) :
    lastOf (pairs ++ [p]) key = if p.1 = key then p.2 else lastOf pairs key := by
  unfold lastOf
  rw [valuesOf_concat]
  by_cases h : p.1 = key
  · rw [if_pos h, if_pos h, List.getLastD_concat]
  · rw [if_neg h, if_neg h, List.append_nil]

theorem valuesOf_ne_nil {pairs : List (String × String)} {key : String}
    (h : key ∈ pairs.map Prod.fst) : valuesOf pairs key ≠ [] := by
  obtain ⟨p, hp, rfl⟩ := List.mem_map.1 h
  have hvalue : p.2 ∈ valuesOf pairs p.1 :=
    List.mem_map_of_mem (List.mem_filter.2 ⟨hp, decide_eq_true rfl⟩)
  exact List.ne_nil_of_mem hvalue

/-! ## A map of the keys of a class -/

namespace Keyed

variable {pairs : List (String × String)} {kind : String → Bool}

/-- The map has the keys of a class that are listed, where they first appeared, each with its values. -/
structure Groups (m : Keyed (List String)) (kind : String → Bool) (pairs : List (String × String)) :
    Prop where
  keys : m.keys = ((pairs.map Prod.fst).filter kind).eraseDups
  /-- A key that is not listed has no values, and none are stored. -/
  stored : ∀ key, kind key = true → (m.get? key).getD [] = valuesOf pairs key
  filled : ∀ p ∈ m, p.2 ≠ []

/-- The values of the keys of a class, collected in the order of the list. -/
def gather (kind : String → Bool) (pairs : List (String × String)) : Keyed (List String) :=
  collect (fun value => [value]) (pairs.filter fun p => kind p.1)

theorem gather_concat (p : String × String) : gather kind (pairs ++ [p]) =
    if kind p.1 then (gather kind pairs).push p.1 p.2 else gather kind pairs := by
  unfold gather
  rw [List.filter_append]
  by_cases h : kind p.1 = true
  · have hlast : [p].filter (fun p => kind p.1) = [p] := by simp [h]
    rw [hlast, if_pos h, collect_concat]
    rfl
  · have hlast : [p].filter (fun p => kind p.1) = [] := by simp [h]
    rw [hlast, if_neg h, List.append_nil]

theorem allAt_filter {key : String} (h : kind key = true) :
    allAt (fun value => [value]) (pairs.filter fun p => kind p.1) key = valuesOf pairs key := by
  have hkept : ∀ p ∈ pairs, (decide (p.1 = key) && kind p.1) = decide (p.1 = key) := by
    intro p _
    by_cases hp : p.1 = key
    · rw [hp, h, Bool.and_true]
    · rw [decide_eq_false hp, Bool.false_and]
  rw [allAt, valuesOf, List.filter_filter, List.filter_congr hkept, List.map_eq_flatMap]

theorem groups_gather (kind : String → Bool) (pairs : List (String × String)) :
    (gather kind pairs).Groups kind pairs := by
  have hcollected : (gather kind pairs).keys =
      ((pairs.filter fun p => kind p.1).map Prod.fst).eraseDups ∧ (gather kind pairs).keys.Nodup :=
    keys_collect _ _
  obtain ⟨hkeys, hnodup⟩ := hcollected
  have hfst : (pairs.filter fun p => kind p.1).map Prod.fst = (pairs.map Prod.fst).filter kind :=
    List.filter_map.symm
  rw [hfst] at hkeys
  have hget : ∀ key, kind key = true → (gather kind pairs).get? key =
      if key ∈ pairs.map Prod.fst then some (valuesOf pairs key) else none := by
    intro key hkey
    have hmem : key ∈ (pairs.map Prod.fst).filter kind ↔ key ∈ pairs.map Prod.fst := by
      rw [List.mem_filter, and_iff_left hkey]
    rw [gather, get?_collect, hfst, allAt_filter hkey]
    exact if_congr hmem rfl rfl
  refine ⟨hkeys, fun key hkey => ?_, ?_⟩
  · rw [hget key hkey]
    by_cases h : key ∈ pairs.map Prod.fst
    · rw [if_pos h, Option.getD_some]
    · rw [if_neg h, valuesOf, filter_of_not_mem_map h]
      rfl
  · -- a map with different keys is known by what stands at each of them
    have hlisted : ∀ key ∈ (gather kind pairs).keys, kind key = true ∧ key ∈ pairs.map Prod.fst := by
      intro key hkey
      rw [hkeys, List.mem_eraseDups, List.mem_filter] at hkey
      exact hkey.symm
    have hvalues : ∀ key ∈ (gather kind pairs).keys,
        (gather kind pairs).get? key = some (valuesOf pairs key) := by
      intro key hkey
      obtain ⟨hkind, hmem⟩ := hlisted key hkey
      rw [hget key hkind, if_pos hmem]
    intro p hp
    rw [eq_map_keys hnodup hvalues] at hp
    obtain ⟨key, hkey, rfl⟩ := List.mem_map.1 hp
    exact valuesOf_ne_nil (hlisted key hkey).2

end Keyed

namespace Attributes

/-! ## What a list of keys and values leaves -/

/-- The key names a validator. -/
def isValidator (key : String) : Bool :=
  key ∈ ["validator", "source_validator", "destination_validator"]

/-- The key has no place of its own. -/
def isOther (key : String) : Bool :=
  !isValidator key && key ∉ ["module", "action", "completion_time", "sender", "recipient", "feeder",
    "voter", "amount"]

/-- The attributes with the values of a list, key by key. -/
def grouping (pairs : List (String × String)) : Attributes where
  module := lastOf pairs "module"
  action := lastOf pairs "action"
  completionTime := lastOf pairs "completion_time"
  sender := valuesOf pairs "sender"
  recipient := valuesOf pairs "recipient"
  feeder := valuesOf pairs "feeder"
  voter := valuesOf pairs "voter"
  amount := valuesOf pairs "amount"
  validator := Keyed.gather isValidator pairs
  others := Keyed.gather isOther pairs

theorem grouping_concat (pairs : List (String × String)) (p : String × String) :
    grouping (pairs ++ [p]) = (grouping pairs).push p.1 p.2 := by
  obtain ⟨key, value⟩ := p
  unfold push
  split <;>
    simp_all [grouping, valuesOf_concat, lastOf_concat, Keyed.gather_concat, isValidator, isOther]

theorem ofPairs_eq (pairs : List (String × String)) : ofPairs pairs = grouping pairs := by
  induction pairs using List.reverseRecOn with
  | nil => rfl
  | append_singleton pairs p ih =>
    rw [grouping_concat, ← ih, ofPairs, ofPairs, List.foldl_append]
    rfl

/-- Each key has its values: all of them in order, or the last one. -/
structure Groups (a : Attributes) (pairs : List (String × String)) : Prop where
  sender : a.sender = valuesOf pairs "sender"
  recipient : a.recipient = valuesOf pairs "recipient"
  feeder : a.feeder = valuesOf pairs "feeder"
  voter : a.voter = valuesOf pairs "voter"
  amount : a.amount = valuesOf pairs "amount"
  validator : a.validator.Groups isValidator pairs
  others : a.others.Groups isOther pairs
  module : a.module = lastOf pairs "module"
  action : a.action = lastOf pairs "action"
  completionTime : a.completionTime = lastOf pairs "completion_time"

theorem groups_ofPairs (pairs : List (String × String)) : (ofPairs pairs).Groups pairs := by
  have hvalidator := Keyed.groups_gather isValidator pairs
  have hothers := Keyed.groups_gather isOther pairs
  rw [ofPairs_eq]
  exact ⟨rfl, rfl, rfl, rfl, rfl, hvalidator, hothers, rfl, rfl, rfl⟩

/-! ## Lists of items -/

/-- What a value is kept as: a text is itself, null or nothing is empty, and any other value is one of its
JSON texts, from which it is read back if it has no part that is a double and is not nested too deep. -/
def KeptAs : Option Json → String → Prop
  | none, s | some .null, s => s = ""
  | some (.text t), s => s = t
  | some j, s =>
    j.IsText s.toList ∧ (j.Exact → j.depth < Json.depthLimit → Json.parse? s = some j)

/-- The item of an attribute list has this key and this value. -/
def Lists (item : Json) (p : String × String) : Prop :=
  item.member? "key" = some (.text p.1) ∧ KeptAs (item.member? "value") p.2

theorem keptAs_valueText (v : Option Json) : KeptAs v (valueText v) := by
  have hprint (j : Json) : j.IsText j.print.toList ∧
      (j.Exact → j.depth < Json.depthLimit → Json.parse? j.print = some j) := by
    refine ⟨Json.isText_print j, fun hexact hdepth => ?_⟩
    have hread := Json.parse?_text (Json.isText_print j) hexact hdepth
    rwa [String.ofList_toList] at hread
  match v with
  | none | some .null => rfl
  | some (.text _) => rfl
  | some (.bool _) | some (.integer _) | some (.float _) => exact hprint _
  | some (.array _) | some (.object _) | some .unreadable => exact hprint _

/-- The key and the value that are taken from an item. -/
def Reads (item : Json) (p : String × String) : Prop :=
  item.member? "key" = some (.text p.1) ∧ valueText (item.member? "value") = p.2

theorem lists_of_reads {item : Json} {p : String × String} (h : Reads item p) : Lists item p :=
  ⟨h.1, h.2 ▸ keptAs_valueText _⟩

theorem pair?_of_reads {item : Json} {p : String × String} (h : Reads item p) :
    pair? item = some p := by
  obtain ⟨key, value⟩ := p
  obtain ⟨hkey, rfl⟩ := h
  simp only [pair?, hkey]

theorem mapM_of_reads {items : List Json} {pairs : List (String × String)}
    (h : List.Forall₂ Reads items pairs) : items.mapM pair? = some pairs := by
  induction h with
  | nil => rfl
  | cons hitem _ ih => simp [List.mapM_cons, pair?_of_reads hitem, ih]

theorem ofJson?_array {items : List Json} {pairs : List (String × String)}
    (h : List.Forall₂ Reads items pairs) : ofJson? (.array items) = some (ofPairs pairs) := by
  rw [ofJson?, mapM_of_reads h, Option.map_some]

/-- The item has a text as its key. -/
def HasKey (item : Json) : Prop :=
  ∃ key, item.member? "key" = some (.text key)

theorem pair?_eq_none {item : Json} (h : ¬HasKey item) : pair? item = none := by
  unfold pair?
  split
  · next key hkey => exact absurd ⟨key, hkey⟩ h
  · rfl

theorem exists_reads {items : List Json} (h : ∀ item ∈ items, HasKey item) :
    ∃ pairs, List.Forall₂ Reads items pairs := by
  induction items with
  | nil => exact ⟨[], .nil⟩
  | cons item items ih =>
    obtain ⟨⟨key, hkey⟩, hitems⟩ := List.forall_mem_cons.1 h
    obtain ⟨pairs, hpairs⟩ := ih hitems
    exact ⟨(key, valueText (item.member? "value")) :: pairs, .cons ⟨hkey, rfl⟩ hpairs⟩

theorem ofJson?_eq_none {items : List Json} {item : Json} (hitem : item ∈ items)
    (h : ¬HasKey item) : ofJson? (.array items) = none := by
  have hpairs : items.mapM pair? = none := by
    induction items with
    | nil => exact absurd hitem List.not_mem_nil
    | cons first items ih =>
      rw [List.mapM_cons]
      rcases List.mem_cons.1 hitem with rfl | hitem
      · rw [pair?_eq_none h]
        rfl
      · rw [ih hitem]
        cases pair? first <;> rfl
  rw [ofJson?, hpairs, Option.map_none]

/-- **Every occurrence of a key is kept.** A list of attributes is refused exactly if one of its items has
no text as its key. If all of them have one, the list is read: each key that keeps a list has its values
as texts (`KeptAs`) in the order of the items, the maps list their keys where they first appeared and have
no key without values, and module, action and completion time are the values of their last occurrences. -/
theorem grouped_by_key (items : List Json) :
    (ofJson? (.array items) = none ↔ ∃ item ∈ items, ¬HasKey item) ∧
    ((∀ item ∈ items, HasKey item) → ∃ a pairs, ofJson? (.array items) = some a ∧
      List.Forall₂ Lists items pairs ∧ a.Groups pairs) := by
  have hread : (∀ item ∈ items, HasKey item) → ∃ a pairs, ofJson? (.array items) = some a ∧
      List.Forall₂ Lists items pairs ∧ a.Groups pairs := by
    intro h
    obtain ⟨pairs, hpairs⟩ := exists_reads h
    have hlists : List.Forall₂ Lists items pairs := hpairs.imp fun _ _ => lists_of_reads
    exact ⟨_, pairs, ofJson?_array hpairs, hlists, groups_ofPairs pairs⟩
  refine ⟨⟨fun hnone => ?_, fun ⟨item, hitem, hkey⟩ => ofJson?_eq_none hitem hkey⟩, hread⟩
  by_contra hall
  push Not at hall
  obtain ⟨a, pairs, hsome, -⟩ := hread hall
  exact Option.some_ne_none a (hsome.symm.trans hnone)

/-- An item with a key and a value. -/
def item (key : String) (value : Json) : Json :=
  .object [("key", .text key), ("value", value)]

/-- An item whose value is kept as one text only. -/
theorem eq_of_lists_item {key t : String} {value : Json} {p : String × String}
    (hkept : ∀ s, KeptAs (some value) s → s = t) (h : Lists (item key value) p) : p = (key, t) := by
  obtain ⟨hkey, hvalue⟩ := h
  have hfirst : (item key value).member? "key" = some (.text key) := by
    simp [item, Json.member?]
  have hname : key = p.1 := Json.text.inj (Option.some.inj (hfirst.symm.trans hkey))
  exact Prod.ext hname.symm (hkept p.2 hvalue)

theorem keptAs_seven (s : String) (h : KeptAs (some (.integer 7)) s) : s = "7" := by
  have hseven {cs : List Char} (h : Json.IsText (.integer 7) cs) : cs = ['7'] := by
    cases h
    rfl
  exact String.toList_inj.1 (hseven h.1)

theorem keptAs_list (s : String) (h : KeptAs (some (.array [.bool true])) s) : s = "[true]" := by
  have htrue {cs : List Char} (h : Json.IsText (.bool true) cs) : cs = ['t', 'r', 'u', 'e'] := by
    cases h
    rfl
  have hlist {cs : List Char} (h : Json.IsText (.array [.bool true]) cs) :
      cs = ['[', 't', 'r', 'u', 'e', ']'] := by
    cases h with
    | array h =>
      cases h with
      | cons hj hjs =>
        cases hjs
        rw [htrue hj]
        rfl
  exact String.toList_inj.1 (hlist h.1)

/-- Two senders, one of them a number, a validator without a value, two modules, and a list. -/
def sixItems : List Json :=
  [item "module" (.text "bank"), item "sender" (.integer 7), item "validator" .null,
    item "sender" (.text "terra1b"), item "module" (.text "staking"), item "memo" (.array [.bool true])]

/-- Both senders are kept, the list as its text, and the last of the modules. -/
theorem grouped_by_key_six : (∀ item ∈ sixItems, HasKey item) ∧
    ∃ a, ofJson? (.array sixItems) = some a ∧ a.sender = ["7", "terra1b"] ∧
      a.validator.keys = ["validator"] ∧ a.others.keys = ["memo"] ∧
      (a.others.get? "memo").getD [] = ["[true]"] ∧ a.module = "staking" := by
  have hkeys : ∀ item ∈ sixItems, HasKey item := by
    simp [sixItems, item, HasKey, Json.member?]
  obtain ⟨a, pairs, hread, hlists, hgroups⟩ := (grouped_by_key sixItems).2 hkeys
  have hpairs : pairs = [("module", "bank"), ("sender", "7"), ("validator", ""),
      ("sender", "terra1b"), ("module", "staking"), ("memo", "[true]")] := by
    simp only [sixItems, List.forall₂_cons_left_iff, List.forall₂_nil_left_iff] at hlists
    obtain ⟨p₁, _, h₁, ⟨p₂, _, h₂, ⟨p₃, _, h₃, ⟨p₄, _, h₄, ⟨p₅, _, h₅, ⟨p₆, _, h₆, rfl, rfl⟩, rfl⟩,
      rfl⟩, rfl⟩, rfl⟩, rfl⟩ := hlists
    have htext (t s : String) (h : KeptAs (some (.text t)) s) : s = t := h
    have hnull (s : String) (h : KeptAs (some .null) s) : s = "" := h
    rw [eq_of_lists_item (htext _) h₁, eq_of_lists_item keptAs_seven h₂, eq_of_lists_item hnull h₃,
      eq_of_lists_item (htext _) h₄, eq_of_lists_item (htext _) h₅, eq_of_lists_item keptAs_list h₆]
  subst hpairs
  exact ⟨hkeys, a, hread, hgroups.sender, hgroups.validator.keys, hgroups.others.keys,
    hgroups.others.stored "memo" rfl, hgroups.module⟩

end Attributes

end ChainIndex
