import ChainIndex.Proofs.Decimals
import ChainIndex.Proofs.DecodeOutcome
import ChainIndex.Proofs.Origins

/-!
# The heights of stamped transactions

A transaction is stamped with the block that the text of its height names. That text is read twice: without
the blanks around it to find the block, and as it is for the height of the transaction itself, which is zero
if the text is not a number. A number has no blanks, so the two readings agree but for the blanks.

* `decodeWith_stamped`: **what a transaction is stamped with**, and its height.
* `stamped_heights`: a transaction has the height of its block exactly if the text has no blanks around
  it, or the height is zero anyway; whatever is delivered is stamped in this way.
-/

namespace ChainIndex

open Pipeline (rawsOf)

/-! ## Numbers have no blanks -/

namespace Text

theorem isBlank_of_isNumeral {s : List Char} (h : isNumeral s = true) : ∀ c ∈ s, isBlank c = false := by
  rw [isNumeral, Bool.and_eq_true, List.all_eq_true] at h
  exact fun c hc => isBlank_of_isDigit (h.2 c hc)

theorem isBlank_of_unsigned? {bound n : Nat} {s : List Char} (h : unsigned? bound s = some n) :
    ∀ c ∈ s, isBlank c = false := by
  rw [unsigned?.eq_def, Option.ite_none_right_eq_some, Bool.and_eq_true] at h
  obtain ⟨⟨hnumeral, -⟩, -⟩ := h
  split at hnumeral
  · exact List.forall_mem_cons.2 ⟨by decide, isBlank_of_isNumeral hnumeral⟩
  · exact isBlank_of_isNumeral hnumeral

/-- A number has no blanks around it. -/
theorem trimmed_eq_self {s : String} {n : UInt64} (h : word64? s = some n) : trimmed s = s := by
  rw [word64?, Option.map_eq_some_iff] at h
  obtain ⟨k, hk, -⟩ := h
  rw [trimmed, trim_eq_self (isBlank_of_unsigned? hk), String.ofList_toList]

/-- A text with blanks around it is not a number. -/
theorem word64?_eq_none {s : String} (h : trimmed s ≠ s) : word64? s = none := by
  cases hword : word64? s with
  | none => rfl
  | some n => exact absurd (trimmed_eq_self hword) h

end Text

/-! ## Stamps -/

/-- A transaction carries what it has of a block. -/
def Transaction.StampedWith (t : Transaction) (b : Block) : Prop :=
  t.blockHash = b.hash ∧ t.time = some b.time ∧ t.chainId = b.chainId

instance (t : Transaction) (b : Block) : Decidable (t.StampedWith b) :=
  inferInstanceAs (Decidable (_ ∧ _ ∧ _))

/-- How a transaction is stamped. -/
inductive Stamped (set : BlockSet) (raw : RawTransaction) (t : Transaction) : Prop where
  /-- Its block is there, and its height is that of the block, or zero if there are blanks around it. -/
  | own (b : Block) (hb : b ∈ set.blocks)
      (hnamed : Text.word64? (Text.trimmed raw.height) = some b.height) (hstamp : t.StampedWith b)
      (hheight : t.height = if Text.trimmed raw.height = raw.height then b.height else 0)
  /-- No block of its height is there, and it is not stamped at all. -/
  | unknown (hnone : ∀ b ∈ set.blocks, Text.word64? (Text.trimmed raw.height) ≠ some b.height)
      (hhash : t.blockHash = "") (htime : t.time = none) (hchain : t.chainId = "")

/-- A transaction with the stamp of one block has its height, unless there are blanks around the text. -/
theorem Stamped.height_iff {set : BlockSet} {raw : RawTransaction} {t : Transaction}
    (h : Stamped set raw t) {b : Block} (hb : b ∈ set.blocks) (hstamp : t.StampedWith b)
    (hunique : ∀ c ∈ set.blocks, t.StampedWith c → c = b) :
    Text.word64? (Text.trimmed raw.height) = some b.height ∧
      (t.height = b.height ↔ Text.trimmed raw.height = raw.height ∨ b.height = 0) := by
  cases h with
  | own c hc hnamed hown hheight =>
    obtain rfl := hunique c hc hown
    refine ⟨hnamed, ?_⟩
    rw [hheight]
    split
    · rename_i hsame
      exact iff_of_true rfl (.inl hsame)
    · rename_i hblanks
      rw [or_iff_right hblanks, eq_comm]
  | unknown hnone hhash htime hchain =>
    -- only a block gives a transaction its time
    rw [hstamp.2.1] at htime
    cases htime

namespace RangeFetcher

variable {σ : Type} {f : RangeFetcher σ} {set : BlockSet} {raw : RawTransaction}
  {m : Measured Transaction}

theorem mem_of_get? {height : Height} {b : Block} (h : set.get? height = some b) :
    b ∈ set.blocks ∧ b.height = height := by
  rw [BlockSet.get?] at h
  have hheight := List.find?_some h
  exact ⟨List.mem_of_find?_eq_some h, beq_iff_eq.1 hheight⟩

theorem decode_fields {d : Decoder} (h : d.decode raw = .ok m) :
    m.value.height = (Text.word64? raw.height).getD 0 ∧ m.value.blockHash = "" ∧
      m.value.time = none ∧ m.value.chainId = "" := by
  rw [Decoder.decode_eq] at h
  obtain ⟨gasWanted, -, h⟩ := of_bind_ok h
  obtain ⟨gasUsed, -, h⟩ := of_bind_ok h
  obtain ⟨content, -, h⟩ := of_bind_ok h
  obtain rfl := Except.ok.inj h
  simp only [Decoder.transaction, and_self]

theorem decodeIn_fields {d : Decoder} {b : Block} (h : d.decodeIn b raw = .ok m) :
    m.value.StampedWith b ∧ m.value.height = (Text.word64? raw.height).getD 0 := by
  rw [Decoder.decodeIn] at h
  obtain ⟨plain, hplain, h⟩ := of_bind_ok h
  obtain rfl := Except.ok.inj h
  exact ⟨⟨rfl, rfl, rfl⟩, (decode_fields hplain).1⟩

/-- The height of a transaction that has a block. -/
theorem getD_word64? {s : String} {height : Height} (h : Text.word64? (Text.trimmed s) = some height) :
    (Text.word64? s).getD 0 = if Text.trimmed s = s then height else 0 := by
  split
  · rename_i hsame
    rw [hsame] at h
    rw [h, Option.getD_some]
  · rename_i hblanks
    rw [Text.word64?_eq_none hblanks, Option.getD_none]

/-- **A transaction is stamped with the block that its height names.** -/
theorem decodeWith_stamped (h : f.decodeWith set raw = .ok m) : Stamped set raw m.value := by
  unfold decodeWith at h
  cases hfound : (Text.word64? (Text.trimmed raw.height)).bind set.get? with
  | none =>
    rw [hfound] at h
    obtain ⟨-, hhash, htime, hchain⟩ := decode_fields h
    refine .unknown (fun b hb hnamed => ?_) hhash htime hchain
    rw [hnamed] at hfound
    exact List.find?_eq_none.1 hfound b hb (beq_self_eq_true _)
  | some b =>
    rw [hfound] at h
    obtain ⟨hstamp, hvalue⟩ := decodeIn_fields h
    obtain ⟨height, hnamed, hget⟩ := Option.bind_eq_some_iff.1 hfound
    obtain ⟨hb, rfl⟩ := mem_of_get? hget
    exact .own b hb hnamed hstamp (hvalue.trans (getD_word64? hnamed))

/-- Whether a transaction can be decoded does not depend on its block. -/
theorem decodeWith_ok_iff (f : RangeFetcher σ) (set : BlockSet) (raw : RawTransaction) :
    (∃ m, f.decodeWith set raw = .ok m) ↔ ∃ m, f.decoder.decode raw = .ok m := by
  unfold decodeWith
  cases (Text.word64? (Text.trimmed raw.height)).bind set.get? with
  | none => exact Iff.rfl
  | some b =>
    simp only [Decoder.decodeIn, bind, Except.bind]
    cases f.decoder.decode raw with
    | error e => simp only [reduceCtorEq, exists_false]
    | ok m => exact iff_of_true ⟨_, rfl⟩ ⟨m, rfl⟩

/-- **A transaction has the height of its block, unless there are blanks around the text of it.** Whatever
blocks there are and whatever a node reports, a transaction is emitted if and only if it can be decoded. It
is stamped with the block that the text of its height names, if there is one (`Stamped`). If it carries the
stamp of one of the blocks, and of no other one, then the text names that block, and the transaction has its
height if and only if there are no blanks around the text or the height is zero anyway. Every transaction
that is delivered, of a range or of the newest blocks, was found by a search and is stamped in this way with
one of the blocks that were received. What a fetcher does with its source is such a delivery. -/
theorem stamped_heights [Clocked σ] (f : RangeFetcher σ) :
    (∀ set raw, (∃ m, f.decodeWith set raw = .ok m) ↔ ∃ m, f.decoder.decode raw = .ok m) ∧
    (∀ set raw m, f.decodeWith set raw = .ok m → Stamped set raw m.value ∧
      ∀ b ∈ set.blocks, m.value.StampedWith b → (∀ c ∈ set.blocks, m.value.StampedWith c → c = b) →
        Text.word64? (Text.trimmed raw.height) = some b.height ∧
        (m.value.height = b.height ↔ Text.trimmed raw.height = raw.height ∨ b.height = 0)) ∧
    (∀ node range q s, Transfer.Steps f node (Transfer.start f (f.segments range)) s ∨
        Transfer.Steps f node (Transfer.startLatest f q) s →
      ∀ t, .transaction t ∈ s.trail.sent → ∃ set : BlockSet, (∀ b ∈ set.blocks, s.trail.Received b) ∧
        ∃ raw ∈ rawsOf s.trail.found, Stamped set raw t) ∧
    (∀ (range : HeightRange) (q : LatestQuery) (deadline : Deadline) (world : σ),
      (∃ s, Transfer.Steps f (.ofSource f.source deadline) (Transfer.start f (f.segments range)) s ∧
        s.trail.sent = (f.fetch range deadline world).1.payloads) ∧
      ∃ s, Transfer.Steps f (.ofSource f.source deadline) (Transfer.startLatest f q) s ∧
        s.trail.sent = (f.fetchLatest q deadline world).1.payloads) := by
  refine ⟨f.decodeWith_ok_iff, fun set raw m h => ⟨decodeWith_stamped h, ?_⟩, ?_, ?_⟩
  · intro b hb hstamp hunique
    exact (decodeWith_stamped h).height_iff hb hstamp hunique
  · intro node range q s hs t ht
    have hdecoded : Transfer.Decoded f s t :=
      hs.elim (Transfer.decoded_of_steps · ht) (Transfer.decoded_of_latest · ht)
    obtain ⟨set, hset, raw, hraw, m, hm, rfl⟩ := hdecoded
    exact ⟨set, hset, raw, hraw, decodeWith_stamped hm⟩
  · intro range q deadline world
    have hf := follows_ofSource f.source deadline
    obtain ⟨s, hs, -, -, hsent⟩ := f.fetch_steps hf world trivial range
    obtain ⟨s', hs', -, -, hsent'⟩ := f.fetchLatest_steps hf world trivial q
    exact ⟨⟨s, hs, hsent⟩, s', hs', hsent'⟩

/-- **A transaction of a block at another height.** There are blanks around the height 5, so the
transaction is stamped with block 5, and its own height is zero. -/
theorem stamped_at_zero :
    let b : Block := { height := 5, hash := "H5", chainId := "columbus-4", transactionCount := 1 }
    let set := ({} : BlockSet).extend [b]
    let raw : RawTransaction :=
      { hash := "T5", height := " 5 ", execution := { gasWanted := "1", gasUsed := "1" }, tx := "eA==" }
    let f : RangeFetcher Stillness := { source := .ofAnswers (fun _ => .ok [b]) fun _ => .ok [raw] }
    b ∈ set.blocks ∧ ∃ m, f.decodeWith set raw = .ok m ∧ m.value.StampedWith b ∧
      m.value.height ≠ b.height := by
  intro b set raw f
  have hdecoded : ((f.decodeWith set raw).toOption.any fun m =>
      decide (m.value.StampedWith b ∧ m.value.height ≠ b.height)) = true := by decide +kernel
  refine ⟨List.mem_cons_self, ?_⟩
  cases hresult : f.decodeWith set raw with
  | error e =>
    rw [hresult] at hdecoded
    cases hdecoded
  | ok m =>
    rw [hresult] at hdecoded
    exact ⟨m, rfl, of_decide_eq_true hdecoded⟩

end RangeFetcher

end ChainIndex
