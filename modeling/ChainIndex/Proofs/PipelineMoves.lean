import ChainIndex.Delivery.Pipeline
import Mathlib.Data.List.Basic
import Mathlib.Data.List.Perm.Basic

/-!
# The moves of a pipeline

* `Moved`: **all that a move can do**, one case for each way to go on.
* `begun`, `ended`, `emitted`: what a move asks, what it hears, and what it sends.
* `Announced`: each transaction comes after payloads that make it due.
-/

namespace ChainIndex

namespace Job

def block? : Job → Option Block
  | pass b => some b
  | search _ => none

def page? : Job → Option SearchPage
  | pass _ => none
  | search s => some s

end Job

namespace Payload

def block? : Payload → Option Block
  | block b => some b
  | _ => none

def transaction? : Payload → Option Transaction
  | transaction t => some t
  | _ => none

/-- Payloads that go through a pipeline. -/
def Streamed : Payload → Prop
  | block _ | transaction _ => True
  | reward _ | balance _ | delegations _ | mark _ => False

/-- Such payloads are blocks and transactions, up to their order. -/
theorem streamed_perm {ps : List Payload} (h : ∀ p ∈ ps, p.Streamed) :
    ps.Perm ((ps.filterMap block?).map block ++ (ps.filterMap transaction?).map transaction) := by
  induction ps with
  | nil => exact List.Perm.refl _
  | cons p ps ih =>
    have hps := ih fun q hq => h q (List.mem_cons_of_mem _ hq)
    have hp := h p List.mem_cons_self
    cases p with
    | block b => exact hps.cons _
    | transaction t => exact (hps.cons _).trans List.perm_middle.symm
    | reward | balance | delegations | mark => exact hp.elim

/-- Each transaction comes after payloads that make it due. -/
def Announced (due : List Payload → Transaction → Prop) (sent : List Payload) : Prop :=
  ∀ before t after, sent = before ++ .transaction t :: after → due before t

variable {due : List Payload → Transaction → Prop} {sent others : List Payload} {x : Payload}

theorem announced_nil : Announced due [] := by
  intro before t after h
  exact absurd (List.append_eq_nil_iff.1 h.symm).2 (List.cons_ne_nil _ _)

theorem Announced.imp {due' : List Payload → Transaction → Prop} (h : Announced due sent)
    (hdue : ∀ before t, before <+: sent → due before t → due' before t) :
    Announced due' sent := by
  intro before t after hsent
  exact hdue before t ⟨_, hsent.symm⟩ (h before t after hsent)

theorem Announced.concat (h : Announced due sent) (hx : ∀ t, x = .transaction t → due sent t) :
    Announced due (sent ++ [x]) := by
  intro before t after hsent
  rcases List.eq_nil_or_concat after with rfl | ⟨after, y, rfl⟩
  · obtain ⟨rfl, hlast⟩ := List.append_inj' hsent rfl
    exact hx t (List.cons.inj hlast).1
  · rw [List.concat_eq_append, ← List.cons_append, ← List.append_assoc] at hsent
    exact h before t after (List.append_inj' hsent rfl).1

theorem Announced.append (h : Announced due sent) (hothers : Announced due others)
    (hdue : ∀ before t, due before t → due (sent ++ before) t) :
    Announced due (sent ++ others) := by
  intro before t after hsent
  rcases List.append_eq_append_iff.1 hsent with ⟨between, rfl, hrest⟩ | ⟨between, hfirst, hrest⟩
  · exact hdue between t (hothers between t after hrest)
  · rcases between with _ | ⟨y, between⟩
    · rw [List.append_nil] at hfirst
      have hnone := hdue [] t (hothers [] t after hrest.symm)
      rwa [List.append_nil, hfirst] at hnone
    · obtain ⟨rfl, -⟩ := List.cons.inj hrest
      exact h before t between hfirst

end Payload

namespace Fetch

/-- The search that a fetcher waits for. -/
def pages : Fetch → List SearchPage
  | asking s => [s]
  | free | handing _ => []

/-- The transactions that a fetcher still has to queue. -/
def raws : Fetch → List RawTransaction
  | handing txs => txs
  | free | asking _ => []

theorem eq_free {x : Fetch} (h : x.isFree = true) : x = free := by
  cases x with
  | free => rfl
  | asking s => cases h
  | handing txs => cases h

end Fetch

/-- A reply to a search. -/
abbrev SearchReply := Except NodeError (List RawTransaction)

namespace Pipeline

/-! ## All that a move can do -/

variable (decoder : RawTransaction → Except DecodeError (Measured Transaction))

/-- What becomes of a pipeline, one case for each way to go on. -/
inductive Moved (p : Pipeline) : Move → Pipeline → Prop where
  | passBlock (b : Block) (rest : List Job) (hplan : p.plan = .pass b :: rest)
      (hroom : p.hasRoom = true) :
      Moved p .produce { p with plan := rest, out := p.out ++ [.block b] }
  | queueSearch (s : SearchPage) (rest : List Job) (hplan : p.plan = .search s :: rest)
      (hroom : p.hasSearchRoom = true) :
      Moved p .produce { p with plan := rest, searches := p.searches ++ [s] }
  | take (place : Nat) (s : SearchPage) (rest : List SearchPage) (hsearches : p.searches = s :: rest)
      (hfree : p.fetchers[place]? = some .free) :
      Moved p (.take place) { p.withFetcher place (.asking s) with searches := rest }
  | found (place : Nat) (s : SearchPage) (txs : List RawTransaction)
      (hasking : p.fetchers[place]? = some (.asking s)) :
      Moved p (.answer place (.ok txs)) (p.withFetcher place (.handing txs))
  | lost (place : Nat) (s : SearchPage) (e : NodeError)
      (hasking : p.fetchers[place]? = some (.asking s)) :
      Moved p (.answer place (.error e))
        { p.withFetcher place .free with failures := p.failures ++ [(s, e)] }
  | leave (place : Nat) (hhanding : p.fetchers[place]? = some (.handing [])) :
      Moved p (.hand place) (p.withFetcher place .free)
  | hand (place : Nat) (tx : RawTransaction) (txs : List RawTransaction)
      (hhanding : p.fetchers[place]? = some (.handing (tx :: txs))) (hroom : 0 < p.rawRoom) :
      Moved p (.hand place) { p.withFetcher place (.handing txs) with raw := p.raw ++ [tx] }
  | decode (tx : RawTransaction) (rest : List RawTransaction) (t : Measured Transaction)
      (hdecoded : p.decoded = none) (hraw : p.raw = tx :: rest) (ht : decoder tx = .ok t) :
      Moved p .decode
        { p with raw := rest, decoded := some t.value, journal := p.journal ++ t.metrics }
  | drop (tx : RawTransaction) (rest : List RawTransaction) (e : DecodeError)
      (hdecoded : p.decoded = none) (hraw : p.raw = tx :: rest) (ht : decoder tx = .error e) :
      Moved p .decode { p with raw := rest }
  | passOn (t : Transaction) (hdecoded : p.decoded = some t) (hroom : p.hasRoom = true) :
      Moved p .pass { p with decoded := none, out := p.out ++ [.transaction t] }
  | forward (x : Payload) (rest : List Payload) (hout : p.out = x :: rest) :
      Moved p .forward { p with out := rest, delivered := p.delivered ++ [x] }

variable {decoder}

theorem moved_of_step {p q : Pipeline} {m : Move} (h : p.step? decoder m = some q) :
    Moved decoder p m q := by
  cases m with
  | produce =>
    simp only [step?] at h
    split at h
    · cases h
    · rename_i b rest hplan
      split at h
      · rename_i hroom
        cases h
        exact .passBlock b rest hplan hroom
      · cases h
    · rename_i s rest hplan
      split at h
      · rename_i hroom
        cases h
        exact .queueSearch s rest hplan hroom
      · cases h
  | take place =>
    simp only [step?] at h
    split at h
    · rename_i s rest hsearches hfree
      cases h
      exact .take place s rest hsearches hfree
    · cases h
  | answer place reply =>
    simp only [step?] at h
    split at h
    · rename_i s txs hasking
      cases h
      exact .found place s txs hasking
    · rename_i s e hasking
      cases h
      exact .lost place s e hasking
    · cases h
  | hand place =>
    simp only [step?] at h
    split at h
    · rename_i hhanding
      cases h
      exact .leave place hhanding
    · rename_i tx txs hhanding
      split at h
      · rename_i hroom
        cases h
        exact .hand place tx txs hhanding hroom
      · cases h
    · cases h
  | decode =>
    simp only [step?] at h
    split at h
    · rename_i tx rest hdecoded hraw
      split at h
      · rename_i t ht
        cases h
        exact .decode tx rest t hdecoded hraw ht
      · rename_i e ht
        cases h
        exact .drop tx rest e hdecoded hraw ht
    · cases h
  | pass =>
    simp only [step?] at h
    split at h
    · cases h
    · rename_i t hdecoded
      split at h
      · rename_i hroom
        cases h
        exact .passOn t hdecoded hroom
      · cases h
  | forward =>
    simp only [step?] at h
    split at h
    · cases h
    · rename_i x rest hout
      cases h
      exact .forward x rest hout

theorem Moved.step {p q : Pipeline} {m : Move} (h : Moved decoder p m q) :
    p.step? decoder m = some q := by
  cases h <;> simp_all [step?]

/-! ## What was asked, found and sent -/

/-- What the receiver got or will get, in its order. -/
def sent (p : Pipeline) : List Payload :=
  p.delivered ++ p.out

/-- The searches that a move begins. -/
def begun (p : Pipeline) : Move → List SearchPage
  | .take _ => p.searches.head?.toList
  | _ => []

/-- The searches that a move ends, and their replies. -/
def ended (p : Pipeline) : Move → List (SearchPage × SearchReply)
  | .answer place reply => ((p.fetchers[place]?.map Fetch.pages).getD []).map fun s => (s, reply)
  | _ => []

/-- The payloads that a move adds for the receiver. -/
def emitted (p : Pipeline) : Move → List Payload
  | .produce => (p.plan.head?.bind Job.block?).toList.map .block
  | .pass => p.decoded.toList.map .transaction
  | _ => []

/-- What receivers get only becomes longer. -/
theorem sent_step {p q : Pipeline} {m : Move} (h : Moved decoder p m q) :
    q.sent = p.sent ++ p.emitted m := by
  cases h <;> simp_all [sent, emitted, withFetcher, Job.block?]

/-- The transactions of the replies, in the order of arrival. -/
def rawsOf (found : List (SearchPage × SearchReply)) : List RawTransaction :=
  found.flatMap fun x => x.2.toOption.getD []

/-- The searches that failed, in the order of arrival. -/
def failuresOf (found : List (SearchPage × SearchReply)) : List (SearchPage × NodeError) :=
  found.filterMap fun
    | (s, .error e) => some (s, e)
    | (_, .ok _) => none

variable (decoder) in
/-- What a raw transaction is decoded to, if it can be. -/
def accepted (raw : RawTransaction) : Option Transaction :=
  (decoder raw).toOption.map Measured.value

theorem accepted_ok {tx : RawTransaction} {t : Measured Transaction} (h : decoder tx = .ok t) :
    accepted decoder tx = some t.value := by
  rw [accepted, h]
  rfl

theorem accepted_error {tx : RawTransaction} {e : DecodeError} (h : decoder tx = .error e) :
    accepted decoder tx = none := by
  rw [accepted, h]
  rfl

theorem rawsOf_append (xs ys : List (SearchPage × SearchReply)) :
    rawsOf (xs ++ ys) = rawsOf xs ++ rawsOf ys :=
  List.flatMap_append

theorem failuresOf_eq_nil {found : List (SearchPage × SearchReply)} :
    failuresOf found = [] ↔ ∀ x ∈ found, ∃ raws, x.2 = .ok raws := by
  rw [failuresOf, List.filterMap_eq_nil_iff]
  refine forall₂_congr fun x _ => ?_
  obtain ⟨page, e | raws⟩ := x
  · simp
  · simp

theorem failuresOf_append (xs ys : List (SearchPage × SearchReply)) :
    failuresOf (xs ++ ys) = failuresOf xs ++ failuresOf ys :=
  List.filterMap_append

/-- A move keeps to what the node may reply. -/
def Permits (answers : SearchPage → SearchReply → Prop) (p : Pipeline) (m : Move) : Prop :=
  ∀ x ∈ p.ended m, answers x.1 x.2

/-- Only the end of a search has to agree with the node. -/
theorem permits_of_ended {answers : SearchPage → SearchReply → Prop} {p : Pipeline} {m : Move}
    (h : p.ended m = []) : p.Permits answers m := by
  intro x hx
  rw [h] at hx
  exact absurd hx List.not_mem_nil

end Pipeline

end ChainIndex
