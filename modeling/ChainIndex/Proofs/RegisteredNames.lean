import ChainIndex.Envelope.Amino
import ChainIndex.Message.Kind
import Mathlib.Data.List.Nodup

/-!
# Names of types

A registered name is told by four bytes of its digest, a message's kind by any of its tags.

* `typePrefix_inj`: no two registered names have the same bytes.
* `unpack_pack`: a value of a registered type gives its name and its bytes back.
* `MessageKind.ofTag?_of_mem`: no two kinds have a tag in common.
-/

namespace ChainIndex

open Wire (Bytes)

namespace Amino

theorem typePrefix_length (name : String) : (typePrefix name).length = prefixLength := by
  rw [typePrefix, List.length_take, List.length_append, List.length_replicate]
  omega

theorem prefixes_nodup : (registeredNames.map typePrefix).Nodup := by
  decide +kernel

/-- **Registered names have different bytes.** -/
theorem typePrefix_inj {name other : String} (hname : name ∈ registeredNames)
    (hother : other ∈ registeredNames) (h : typePrefix name = typePrefix other) : name = other :=
  List.inj_on_of_nodup_map prefixes_nodup hname hother h

theorem nameOf?_typePrefix {name : String} (hname : name ∈ registeredNames) :
    nameOf? (typePrefix name) = some name := by
  have hinj : ∀ other ∈ registeredNames, typePrefix name = typePrefix other → name = other :=
    fun other hother => typePrefix_inj hname hother
  rw [nameOf?, table]
  generalize registeredNames = names at hname hinj
  induction names with
  | nil => exact absurd hname List.not_mem_nil
  | cons other names ih =>
    rw [List.map_cons, List.lookup_cons]
    by_cases heq : typePrefix name = typePrefix other
    · rw [hinj other List.mem_cons_self heq, beq_self_eq_true]
    · have hne : name ≠ other := fun h => heq (congrArg typePrefix h)
      rw [beq_eq_false_iff_ne.2 heq]
      exact ih ((List.mem_cons.1 hname).resolve_left hne)
        fun o ho => hinj o (List.mem_cons_of_mem _ ho)

/-- **A value of a registered type is unpacked** to its name and its bytes. -/
theorem unpack_pack {name : String} (hname : name ∈ registeredNames) (body : Bytes) :
    unpack (pack name body) = .ok { typeTag := name, payload := body } := by
  have hlength := typePrefix_length name
  have hlong : ¬(pack name body).length < prefixLength := by
    rw [pack, List.length_append]
    omega
  have htake : (pack name body).take prefixLength = typePrefix name := List.take_left' hlength
  have hdrop : (pack name body).drop prefixLength = body := List.drop_left' hlength
  rw [unpack, if_neg hlong, htake, hdrop, tagOf, nameOf?_typePrefix hname, Option.getD_some]

end Amino

namespace MessageKind

theorem mem_all (k : MessageKind) : k ∈ all := by
  cases k <;> decide

theorem ofTag?_tags : ∀ k ∈ all, ∀ tag ∈ k.tags, ofTag? tag = some k := by
  decide +kernel

/-- **A tag tells the kind.** -/
theorem ofTag?_of_mem {k : MessageKind} {tag : String} (h : tag ∈ k.tags) : ofTag? tag = some k :=
  ofTag?_tags k k.mem_all tag h

end MessageKind

end ChainIndex
