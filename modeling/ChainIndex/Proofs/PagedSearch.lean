import ChainIndex.Proofs.AnsweredRequests
import ChainIndex.Proofs.Decimals
import ChainIndex.Proofs.Repetitions
import Mathlib.Algebra.Order.BigOperators.Group.List

/-!
# A search page after page

A search asks for one page after the other and stops by what the node tells: at a page without transactions,
or as soon as the total of the node is there. Neither can be relied on. But each page that is not the last
brings a transaction and leaves some of the total missing (`Paging`), so a total that stays the same bounds
the pages, and the pages never run out of numbers.

* `Client.does_searchCounted`: one page, what is read from its reply, and when it is asked for again.
* `Client.does_searchFrom`: all pages, by the rules of `Paging`.
* `Paging.length_le`: **a constant total bounds the pages**, and `Paging.ending_more`: so they are not used
  up.
* `Paging.served`: the parts of a list, one on each page, come back as the list.
* `Client.searchAll_paged`: **a search gives what is on its pages, or the error of the page that fails**, and
  from a node that serves a list in parts it gives the list. Only why it is cancelled depends on how tokens
  are counted (`Client.Grants`).
-/

namespace ChainIndex

variable {τ ν : Type}

namespace Client

/-- What an answer tells: the transactions on a page, and how many there are on all pages. These are the
ones on this page if the node does not say. -/
def counted (found : Answer.Found) : Except NodeError (List RawTransaction × UInt64) :=
  let total := if found.total.isEmpty then .ok (UInt64.ofNat found.transactions.length)
    else numberOf "total_count" found.total
  total.map (found.transactions, ·)

/-- The page of a reply. -/
def readCounted (body : String) : Except NodeError (List RawTransaction × UInt64) :=
  Answer.result Answer.Found.shape.read body >>= counted

/-- The page after `made` others. -/
def pageOf (height : Height) (perPage : UInt32) (made : Nat) : SearchPage where
  height := height
  page := UInt32.ofNat (made + 1)
  perPage := max perPage 1

theorem pageOf_succ (height : Height) (perPage : UInt32) (made : Nat) :
    { pageOf height perPage made with page := (pageOf height perPage made).page + 1 } =
      pageOf height perPage (made + 1) := by
  have hpage : UInt32.ofNat (made + 1) + 1 = UInt32.ofNat (made + 1 + 1) :=
    (UInt32.ofNat_add (made + 1) 1).symm
  unfold pageOf
  rw [← hpage]

theorem query_pageOf (c : Client ν) (height : Height) (perPage : UInt32) {made : Nat}
    (hmade : made + 1 < UInt32.size) :
    (c.searchRequest (pageOf height perPage made)).query =
      [("query", s!"\"tx.height={height}\""), ("page", toString (made + 1)),
        ("per_page", toString (max perPage 1))] := by
  have hnat : (UInt32.ofNat (made + 1)).toNat = made + 1 := UInt32.toNat_ofNat_of_lt' hmade
  have hpage : toString (UInt32.ofNat (made + 1)) = toString (made + 1) := congrArg toString hnat
  simp only [searchRequest, pageOf, hpage]

end Client

/-- A call for a page: the exchanges that it makes, and what comes of it. -/
structure PageCall where
  notes : List Note
  result : Except NodeError (List RawTransaction × UInt64)

namespace PageCall

/-- The transactions of a page; none if it fails. -/
def batch (x : PageCall) : List RawTransaction :=
  match x.result with
  | .ok found => found.1
  | .error _ => []

theorem batch_of_ok {x : PageCall} {batch : List RawTransaction} {total : UInt64}
    (h : x.result = .ok (batch, total)) : x.batch = batch := by
  unfold PageCall.batch
  rw [h]

/-- The result is read from the last reply, and a page is asked for again only after a failure that may
pass. -/
structure Told (x : PageCall) : Prop where
  gives : Client.Gives (fun reply => Client.readCounted reply.body) x.notes x.result
  transient : ∀ n ∈ x.notes.dropLast, n.Transient

/-- A page is asked for once if there is a reply each time. -/
theorem Told.length_le_one {x : PageCall} (h : x.Told)
    (hreplied : ∀ n ∈ x.notes, ∃ reply, n.Replied reply) : x.notes.length ≤ 1 := by
  have hnone : x.notes.dropLast = [] := by
    refine List.eq_nil_iff_forall_not_mem.2 fun n hn => ?_
    obtain ⟨reply, hreply⟩ := hreplied n (List.dropLast_subset _ hn)
    exact (h.transient n hn).not_replied reply hreply
  have hlength := congrArg List.length hnone
  rw [List.length_dropLast, List.length_nil] at hlength
  omega

/-- Every page that is found tells the same total. -/
def Constant (total : UInt64) (xs : List PageCall) : Prop :=
  ∀ x ∈ xs, ∀ batch told, x.result = .ok (batch, told) → told = total

end PageCall

namespace Client

/-! ## One page -/

/-- This is how a call for a page goes. -/
structure Called [Quantity τ] (c : Client ν) (p : SearchPage) (deadline : Deadline) (s : Session τ ν)
    (x : PageCall) (t : Session τ ν) : Prop where
  performs : Asking.Performs (c.searchCounted p deadline) (c.noting.searchCounted p deadline) s x.notes
    x.result t
  requests : ∀ n ∈ x.notes, n.request.path = "/tx_search" ∧ n.request.query = (c.searchRequest p).query
  told : x.Told

/-- What is left to do with an answer. -/
def count (found : Answer.Found) : Asking τ ν (List RawTransaction × UInt64) := do
  let page ← (counted found : Except NodeError _)
  modify (·.record (.items page.2 "transaction"))
  return page

theorem searchCounted_eq [Quantity τ] (c : Client ν) (p : SearchPage) (deadline : Deadline) :
    c.searchCounted (τ := τ) p deadline =
      c.askChain Answer.Found.shape.read (c.searchRequest p) deadline >>= count := by
  unfold searchCounted count counted
  congr
  funext found
  split
  · rfl
  · cases numberOf "total_count" found.total <;> rfl

theorem does_count (found : Answer.Found) (s : Session τ ν) :
    Asking.Does s (count found) (count found) fun notes result t =>
      notes = [] ∧ result = counted found ∧ (t = s ∨ ∃ m, t = s.record m) := by
  unfold count
  cases counted found with
  | error error => exact Asking.does_quiet (.error error) s rfl (fun _ => rfl) ⟨rfl, rfl, .inl rfl⟩
  | ok page =>
    exact Asking.does_quiet (.ok page) (s.record (.items page.2 "transaction")) rfl (fun _ => rfl)
      ⟨rfl, rfl, .inr ⟨_, rfl⟩⟩

theorem does_searchCounted [Quantity τ] (c : Client ν) (p : SearchPage) (deadline : Deadline)
    (s : Session τ ν) :
    Asking.Does s (c.searchCounted p deadline) (c.noting.searchCounted p deadline)
      fun notes result t => Called c p deadline s ⟨notes, result⟩ t := by
  have hasked := (c.does_askChain Answer.Found.shape.read (c.searchRequest p) deadline s).and
    (c.does_askChain_transient Answer.Found.shape.read (c.searchRequest p) deadline s)
  have hread : Asking.Does s (c.searchCounted p deadline) (c.noting.searchCounted p deadline)
      fun notes result _ =>
        (∀ n ∈ notes, n.request.path = "/tx_search" ∧ n.request.query = (c.searchRequest p).query) ∧
          PageCall.Told ⟨notes, result⟩ := by
    rw [searchCounted_eq, searchCounted_eq]
    refine hasked.bind (fun notes found t hfound => ?_) fun notes error t herror => ?_
    · obtain ⟨⟨hask, hgives⟩, htransient⟩ := hfound
      obtain ⟨n, reply, hlast, hreplied, hfound⟩ := hgives.last found rfl
      refine (does_count found t).imp fun others result u hcount => ?_
      obtain ⟨rfl, rfl, -⟩ := hcount
      rw [List.append_nil]
      refine ⟨hask.requests, ⟨fun hnone => ?_, fun page hpage => ⟨n, reply, hlast, hreplied, ?_⟩⟩,
        htransient⟩
      · cases hgives.cancelled hnone
      · rw [readCounted, hfound]
        exact hpage
    · obtain ⟨⟨hask, hgives⟩, htransient⟩ := herror
      refine ⟨hask.requests, ⟨fun hnone => ?_, nofun⟩, htransient⟩
      cases hgives.cancelled hnone
      rfl
  obtain ⟨notes, result, t, hp, hrequests, htold⟩ := hread
  exact ⟨notes, result, t, hp, hp, hrequests, htold⟩

end Client

/-! ## One page after the other -/

section

variable [Quantity τ] {c : Client ν} {height : Height} {perPage : UInt32} {deadline : Deadline}

/-- How a search goes on after some pages and the transactions that they brought, if it may ask for so many
pages more. -/
inductive Paging (c : Client ν) (height : Height) (perPage : UInt32) (deadline : Deadline) :
    (made left : Nat) → (received : List RawTransaction) → Session τ ν → List PageCall →
      Except NodeError (List RawTransaction) → Session τ ν → Prop where
  /-- There are no more pages to ask for. -/
  | exhausted {made : Nat} {received : List RawTransaction} {s : Session τ ν} :
    Paging c height perPage deadline made 0 received s [] (.ok received) s
  | failed {made left : Nat} {received : List RawTransaction} {s t : Session τ ν} {x : PageCall}
    {error : NodeError} (hcall : c.Called (Client.pageOf height perPage made) deadline s x t)
    (herror : x.result = .error error) :
    Paging c height perPage deadline made (left + 1) received s [x] (.error error) t
  /-- The page is empty, or as much is there as there should be. -/
  | last {made left : Nat} {received : List RawTransaction} {s t : Session τ ν} {x : PageCall}
    {batch : List RawTransaction} {total : UInt64}
    (hcall : c.Called (Client.pageOf height perPage made) deadline s x t)
    (hpage : x.result = .ok (batch, total))
    (hstop : batch = [] ∨ total.toNat ≤ (received ++ batch).length) :
    Paging c height perPage deadline made (left + 1) received s [x] (.ok (received ++ batch)) t
  | more {made left : Nat} {received : List RawTransaction} {s t u : Session τ ν} {x : PageCall}
    {batch : List RawTransaction} {total : UInt64} {xs : List PageCall}
    {result : Except NodeError (List RawTransaction)}
    (hcall : c.Called (Client.pageOf height perPage made) deadline s x t)
    (hpage : x.result = .ok (batch, total)) (hbrings : batch ≠ [])
    (hmissing : (received ++ batch).length < total.toNat)
    (hrest : Paging c height perPage deadline (made + 1) left (received ++ batch) t xs result u) :
    Paging c height perPage deadline made (left + 1) received s (x :: xs) result u

/-- **A search goes by the rules**, and these are its exchanges. -/
theorem Client.does_searchFrom (c : Client ν) (height : Height) (perPage : UInt32) (deadline : Deadline)
    (made left : Nat) (received : List RawTransaction) (s : Session τ ν) :
    Asking.Does s (c.searchFrom (pageOf height perPage made) deadline received left)
      (c.noting.searchFrom (pageOf height perPage made) deadline received left) fun notes result t =>
        ∃ xs, notes = xs.flatMap PageCall.notes ∧
          Paging c height perPage deadline made left received s xs result t := by
  induction left generalizing made received s with
  | zero => exact Asking.does_pure ⟨[], rfl, .exhausted⟩
  | succ left ih =>
    refine (c.does_searchCounted (pageOf height perPage made) deadline s).bind
      (fun notes page t hcall => ?_) fun notes error t hcall => ?_
    · obtain ⟨batch, total⟩ := page
      by_cases hstop : (batch.isEmpty || decide (total.toNat ≤ (received ++ batch).length)) = true
      · simp only [hstop, if_true]
        refine Asking.does_pure ⟨[⟨notes, .ok (batch, total)⟩], by simp, .last hcall rfl ?_⟩
        simpa using hstop
      · simp only [hstop]
        rw [pageOf_succ]
        refine (ih (made + 1) (received ++ batch) t).imp fun others result u hothers => ?_
        obtain ⟨xs, rfl, hrest⟩ := hothers
        simp only [Bool.or_eq_true, List.isEmpty_iff, decide_eq_true_eq, not_or, not_le] at hstop
        exact ⟨⟨notes, .ok (batch, total)⟩ :: xs, rfl, .more hcall rfl hstop.1 hstop.2 hrest⟩
    · exact ⟨[⟨notes, .error error⟩], by simp, .failed hcall rfl⟩

namespace Paging

variable {made left : Nat} {received : List RawTransaction} {s t : Session τ ν} {xs : List PageCall}
  {result : Except NodeError (List RawTransaction)}

theorem length_le_left (h : Paging c height perPage deadline made left received s xs result t) :
    xs.length ≤ left := by
  induction h with
  | exhausted => exact Nat.le_refl 0
  | failed | last => exact Nat.le_add_left 1 _
  | more _ _ _ _ _ ih => exact Nat.succ_le_succ ih

/-- **The pages are asked for in the order of their numbers**, and whatever a call for a page keeps holds
whenever one begins. -/
theorem called (h : Paging c height perPage deadline made left received s xs result t)
    {I : Session τ ν → Prop} (hstart : I s)
    (hkept : ∀ k, k < made + left → ∀ s x t, c.Called (Client.pageOf height perPage k) deadline s x t →
      I s → I t) :
    ∀ (k : Nat) (x : PageCall), xs[k]? = some x →
      ∃ s t, I s ∧ c.Called (Client.pageOf height perPage (made + k)) deadline s x t := by
  induction h with
  | exhausted => exact nofun
  | failed hcall | last hcall =>
    intro k x hx
    cases k with
    | zero => exact ⟨_, _, hstart, Option.some.inj hx ▸ hcall⟩
    | succ k => cases hx
  | more hcall _ _ _ _ ih =>
    intro k x hx
    cases k with
    | zero => exact ⟨_, _, hstart, Option.some.inj hx ▸ hcall⟩
    | succ k =>
      have hnext := ih (hkept _ (by omega) _ _ _ hcall hstart)
        (fun k hk => hkept k (by omega)) k x hx
      rwa [Nat.add_right_comm] at hnext

/-- **A page that fails is the last**, and its error is the result. -/
theorem of_error (h : Paging c height perPage deadline made left received s xs result t) :
    ∀ (k : Nat) (x : PageCall) (error : NodeError), xs[k]? = some x → x.result = .error error →
      k + 1 = xs.length ∧ result = .error error := by
  induction h with
  | exhausted => exact nofun
  | failed _ herror =>
    intro k x error hx hresult
    cases k with
    | zero =>
      obtain rfl := Option.some.inj hx
      cases herror.symm.trans hresult
      exact ⟨rfl, rfl⟩
    | succ k => cases hx
  | last _ hpage _ =>
    intro k x error hx hresult
    cases k with
    | zero =>
      obtain rfl := Option.some.inj hx
      cases hpage.symm.trans hresult
    | succ k => cases hx
  | more _ hpage _ _ _ ih =>
    intro k x error hx hresult
    cases k with
    | zero =>
      obtain rfl := Option.some.inj hx
      cases hpage.symm.trans hresult
    | succ k =>
      obtain ⟨hlast, herror⟩ := ih k x error hx hresult
      exact ⟨congrArg (· + 1) hlast, herror⟩

/-- **Without a failure it is what the pages bring.** -/
theorem result_eq (h : Paging c height perPage deadline made left received s xs result t)
    (hfound : ∀ x ∈ xs, ∃ page, x.result = .ok page) :
    result = .ok (received ++ xs.flatMap PageCall.batch) := by
  induction h with
  | exhausted => simp
  | failed _ herror =>
    obtain ⟨page, hpage⟩ := hfound _ List.mem_cons_self
    cases herror.symm.trans hpage
  | last _ hpage _ => simp [PageCall.batch_of_ok hpage]
  | more _ hpage _ _ _ ih =>
    rw [ih fun x hx => hfound x (List.mem_cons_of_mem _ hx), List.flatMap_cons,
      PageCall.batch_of_ok hpage, List.append_assoc]

/-- An error is that of a page. -/
theorem exists_error (h : Paging c height perPage deadline made left received s xs result t)
    {error : NodeError} (herror : result = .error error) : ∃ x ∈ xs, x.result = .error error := by
  by_contra hnone
  have hfound : ∀ x ∈ xs, ∃ page, x.result = .ok page := by
    intro x hx
    obtain ⟨k, hk⟩ := List.mem_iff_getElem?.1 hx
    cases hresult : x.result with
    | ok page => exact ⟨page, rfl⟩
    | error other =>
      cases herror.symm.trans (h.of_error k x other hk hresult).2
      exact absurd ⟨x, hx, hresult⟩ hnone
  rw [h.result_eq hfound] at herror
  cases herror

/-- **Another page is asked for only if this one brings something and something is missing.** -/
theorem goes_on (h : Paging c height perPage deadline made left received s xs result t) :
    ∀ (k : Nat) (x : PageCall), xs[k]? = some x → k + 1 < xs.length →
      ∃ total, x.result = .ok (x.batch, total) ∧ x.batch ≠ [] ∧
        received.length + ((xs.take (k + 1)).flatMap PageCall.batch).length < total.toNat := by
  induction h with
  | exhausted => exact nofun
  | failed | last =>
    intro k x _ hlt
    exact absurd hlt (by simp)
  | @more _ _ received _ _ _ y batch total xs _ _ hpage hbrings hmissing _ ih =>
    have hbatch := PageCall.batch_of_ok hpage
    rw [List.length_append] at hmissing
    intro k x hx hlt
    cases k with
    | zero =>
      obtain rfl := Option.some.inj hx
      refine ⟨total, hbatch.symm ▸ hpage, hbatch.symm ▸ hbrings, ?_⟩
      simpa [hbatch] using hmissing
    | succ k =>
      obtain ⟨told, hfound, hbrings', hmissing'⟩ := ih k x hx (Nat.lt_of_succ_lt_succ hlt)
      refine ⟨told, hfound, hbrings', ?_⟩
      rw [List.take_succ_cons, List.flatMap_cons, hbatch, List.length_append]
      rw [List.length_append] at hmissing'
      omega

variable {total : UInt64}

/-- **A total that stays the same bounds the pages**: each but the last brings some of what is missing. -/
theorem length_le (h : Paging c height perPage deadline made left received s xs result t)
    (hconst : PageCall.Constant total xs) : xs.length ≤ max 1 (total.toNat - received.length) := by
  induction h with
  | exhausted => exact Nat.zero_le _
  | failed | last => exact le_max_left _ _
  | more _ hpage hbrings hmissing _ ih =>
    obtain rfl := hconst _ List.mem_cons_self _ _ hpage
    have hrest := ih fun x hx => hconst x (List.mem_cons_of_mem _ hx)
    have hpos := List.length_pos_iff.2 hbrings
    rw [List.length_append] at hmissing hrest
    rw [List.length_cons]
    omega

/-- **The pages are never used up**: while the total stays the same, the search comes to the same end if it
may ask for more of them. -/
theorem ending_more (h : Paging c height perPage deadline made left received s xs result t)
    (hconst : PageCall.Constant total xs) (hleft : max 1 (total.toNat - received.length) ≤ left)
    (more : Nat) :
    (c.searchFrom (Client.pageOf height perPage made) deadline received (left + more)).ending s =
      (result, t) := by
  induction h with
  | exhausted => omega
  | failed hcall herror =>
    have hpage := hcall.performs.ending_eq
    rw [herror] at hpage
    rw [Nat.add_right_comm]
    exact Asking.ending_bind_error hpage
  | last hcall hfound hstop =>
    have hpage := hcall.performs.ending_eq
    rw [hfound] at hpage
    rw [Nat.add_right_comm]
    refine (Asking.ending_bind_ok hpage).trans ?_
    dsimp only
    rw [if_pos (by simpa using hstop)]
    rfl
  | more hcall hfound hbrings hmissing _ ih =>
    obtain rfl := hconst _ List.mem_cons_self _ _ hfound
    have hpage := hcall.performs.ending_eq
    have hpos := List.length_pos_iff.2 hbrings
    rw [hfound] at hpage
    rw [List.length_append] at ih hmissing
    rw [Nat.add_right_comm]
    refine (Asking.ending_bind_ok hpage).trans ?_
    dsimp only
    rw [if_neg (by simpa [hbrings] using hmissing), Client.pageOf_succ]
    exact ih (fun x hx => hconst x (List.mem_cons_of_mem _ hx)) (by omega)

/-- **The end is not that of the numbers**: as much is there as there should be, or a page was empty. -/
theorem enough (h : Paging c height perPage deadline made left received s xs result t)
    (hconst : PageCall.Constant total xs) (hleft : total.toNat ≤ received.length + left)
    {found : List RawTransaction} (hfound : result = .ok found) :
    total.toNat ≤ found.length ∨ ∃ x, xs.getLast? = some x ∧ x.batch = [] := by
  induction h with
  | exhausted =>
    cases hfound
    exact .inl hleft
  | failed => cases hfound
  | last _ hpage hstop =>
    cases hfound
    obtain rfl := hconst _ List.mem_cons_self _ _ hpage
    rcases hstop with rfl | hall
    · exact .inr ⟨_, rfl, PageCall.batch_of_ok hpage⟩
    · exact .inl hall
  | more _ hpage hbrings _ _ ih =>
    have hpos := List.length_pos_iff.2 hbrings
    rw [List.length_append] at ih
    rcases ih (fun x hx => hconst x (List.mem_cons_of_mem _ hx)) (by omega) hfound with
      hall | ⟨x, hlast, hempty⟩
    · exact .inl hall
    · refine .inr ⟨x, ?_, hempty⟩
      rw [List.getLast?_cons, hlast]
      rfl

/-- **The parts of a list come back as the list**, if there is one on each page and nothing fails. -/
theorem served (h : Paging c height perPage deadline made left received s xs result t)
    {parts : List (List RawTransaction)} (hparts : ∀ part ∈ parts, part ≠ [])
    (htotal : total.toNat = received.length + parts.flatten.length) (hleft : parts.length ≤ left)
    (hpos : 0 < left)
    (hserved : ∀ (k : Nat) (x : PageCall), xs[k]? = some x → x.result = .ok (parts.getD k [], total)) :
    result = .ok (received ++ parts.flatten) ∧ xs.length = max 1 parts.length := by
  -- by induction on the pages, with one part less after each
  induction h generalizing parts with
  | exhausted => exact absurd hpos (Nat.lt_irrefl 0)
  | failed _ herror => cases herror.symm.trans (hserved 0 _ rfl)
  | last _ hpage hstop =>
    obtain ⟨rfl, rfl⟩ := Prod.mk.inj (Except.ok.inj (hpage.symm.trans (hserved 0 _ rfl)))
    cases parts with
    | nil => simp
    | cons part rest =>
      -- all of the total is there, so no part is left
      have hnone : rest.flatten = [] := by
        have hpart : part ≠ [] := hparts part List.mem_cons_self
        have hall := hstop.resolve_left hpart
        simp only [List.getD_cons_zero, List.flatten_cons, List.length_append] at htotal hall
        exact List.length_eq_zero_iff.1 (by omega)
      have hrest : rest = [] := by
        refine List.eq_nil_iff_forall_not_mem.2 fun x hx => ?_
        exact hparts x (List.mem_cons_of_mem _ hx) (List.flatten_eq_nil_iff.1 hnone x hx)
      subst hrest
      simp
  | more _ hpage hbrings hmissing _ ih =>
    obtain ⟨rfl, rfl⟩ := Prod.mk.inj (Except.ok.inj (hpage.symm.trans (hserved 0 _ rfl)))
    cases parts with
    | nil => exact absurd rfl hbrings
    | cons part rest =>
      simp only [List.getD_cons_zero, List.flatten_cons, List.length_append] at hmissing htotal
      have hrest : 0 < rest.length := by
        refine List.length_pos_iff.2 ?_
        rintro rfl
        simp only [List.flatten_nil, List.length_nil] at htotal
        omega
      have hlength : rest.length + 1 ≤ _ + 1 := hleft
      obtain ⟨hresult, hcount⟩ := ih (fun x hx => hparts x (List.mem_cons_of_mem _ hx))
        (by simp only [List.getD_cons_zero, List.length_append]; omega) (by omega) (by omega)
        fun k x hx => hserved (k + 1) x hx
      refine ⟨?_, ?_⟩
      · simpa using hresult
      · rw [List.length_cons, List.length_cons, hcount]
        omega

end Paging

end

/-! ## A node that answers -/

section Answered

variable [Quantity τ] {c : Client ν} {height : Height} {perPage : UInt32} {deadline : Deadline}
  {I : Session τ ν → Prop} {reason : Prop} {s t : Session τ ν}

namespace Client

/-- Whenever a page of a height is asked for, the node answers with such a page and such a total. -/
def Serves (c : Client ν) (height : Height) (perPage : UInt32)
    (P : Nat → List RawTransaction × UInt64 → Prop) : Prop :=
  ∀ k, k + 1 < UInt32.size → c.Answers (c.searchRequest (pageOf height perPage k)) fun body =>
    ∃ page, readCounted body = .ok page ∧ P k page

variable {p : SearchPage} {P : List RawTransaction × UInt64 → Prop}

theorem does_searchCounted_answered
    (hc : c.Answers (c.searchRequest p) fun body => ∃ page, readCounted body = .ok page ∧ P page)
    (hg : Grants .chain deadline I reason) (h : I s) :
    Asking.Does s (c.searchCounted p deadline) (c.noting.searchCounted p deadline)
      (Answered I reason P) := by
  have hanswers : c.Answers (c.searchRequest p) fun body =>
      ∃ found, Answer.result Answer.Found.shape.read body = .ok found ∧
        ∃ page, counted found = .ok page ∧ P page := by
    intro sent now node hpath hquery
    obtain ⟨reply, houtcome, hstatus, page, hread, hP⟩ := hc sent now node hpath hquery
    obtain ⟨found, hfound, hcounted⟩ := of_bind_ok hread
    exact ⟨reply, houtcome, hstatus, found, hfound, page, hcounted, hP⟩
  rw [searchCounted_eq, searchCounted_eq]
  refine does_bind_answered (does_askChain_answered hanswers hg h) ?_
  rintro found t ⟨page, hcounted, hP⟩ hkept
  refine (does_count found t).imp fun notes result u hcount => ?_
  obtain ⟨hnone, hresult, rfl | ⟨m, rfl⟩⟩ := hcount
  · exact ⟨hnone, hkept, page, hresult.trans hcounted, hP⟩
  · exact ⟨hnone, hg.later _ _ hkept rfl le_rfl, page, hresult.trans hcounted, hP⟩

theorem Called.answered {x : PageCall} (h : c.Called p deadline s x t)
    (hg : Grants .chain deadline I reason) (hkept : I s)
    (hc : c.Answers (c.searchRequest p) fun body => ∃ page, readCounted body = .ok page ∧ P page) :
    Answered I reason P x.notes x.result t := by
  obtain ⟨notes, result, t', hp, hanswered⟩ := does_searchCounted_answered hc hg hkept
  obtain ⟨rfl, rfl, rfl⟩ := h.performs.unique hp
  exact hanswered

end Client

/-- **Each page takes one exchange and is as the node serves it**, unless there is a reason to cancel the
call. -/
theorem Paging.answered {P : Nat → List RawTransaction × UInt64 → Prop} {made left : Nat}
    {received : List RawTransaction} {xs : List PageCall}
    {result : Except NodeError (List RawTransaction)}
    (h : Paging c height perPage deadline made left received s xs result t)
    (hserves : c.Serves height perPage P) (hleft : made + left < UInt32.size)
    (hg : Client.Grants .chain deadline I reason) (hstart : I s) {k : Nat} {x : PageCall}
    (hx : xs[k]? = some x) :
    (∃ page, x.notes.length = 1 ∧ x.result = .ok page ∧ P (made + k) page) ∨
      x.notes = [] ∧ x.result = .error .cancelled ∧ reason := by
  have hkept : ∀ k, k < made + left → ∀ s x t,
      c.Called (Client.pageOf height perPage k) deadline s x t → I s → I t :=
    fun k hk s x t hcall hstart => (hcall.answered hg hstart (hserves k (by omega))).kept
  have hk : k < xs.length := (List.getElem?_eq_some_iff.1 hx).1
  have hlength := h.length_le_left
  obtain ⟨s', t', hkept', hcall⟩ := h.called hstart hkept k x hx
  exact (hcall.answered hg hkept' (hserves _ (by omega))).outcome

end Answered

/-! ## The whole search -/

namespace Client

/-- A search of all pages of a height, by its calls for pages. -/
structure Searched [Quantity τ] (c : Client ν) (height : Height) (perPage : UInt32) (deadline : Deadline)
    (s : Session τ ν) (xs : List PageCall) (result : Except NodeError (List RawTransaction))
    (t : Session τ ν) : Prop where
  /-- The calls make all exchanges of the search. -/
  performs : Asking.Performs (c.searchAll height perPage deadline)
    (c.noting.searchAll height perPage deadline) s (xs.flatMap PageCall.notes) result t
  /-- **The pages are asked for in the order of their numbers**, from the first one on. -/
  pages : ∀ (k : Nat) (x : PageCall), xs[k]? = some x → ∀ n ∈ x.notes, n.request.path = "/tx_search" ∧
    n.request.query = [("query", s!"\"tx.height={height}\""), ("page", toString (k + 1)),
      ("per_page", toString (max perPage 1))]
  nonempty : xs ≠ []
  told : ∀ x ∈ xs, x.Told
  /-- A page is asked for once if there is a reply each time. -/
  once : ∀ x ∈ xs, (∀ n ∈ x.notes, ∃ reply, n.Replied reply) → x.notes.length ≤ 1
  /-- **A page that fails is the last**, and its error is the result. -/
  failed : ∀ (k : Nat) (x : PageCall) (error : NodeError), xs[k]? = some x → x.result = .error error →
    k + 1 = xs.length ∧ result = .error error
  /-- There is no other error. -/
  error : ∀ error, result = .error error → ∃ x ∈ xs, x.result = .error error
  /-- **Otherwise the result is what the pages bring**, in their order. -/
  found : (∀ x ∈ xs, ∃ page, x.result = .ok page) → result = .ok (xs.flatMap PageCall.batch)
  /-- Another page is asked for only if this one brings something, and something is missing. -/
  goes_on : ∀ (k : Nat) (x : PageCall), xs[k]? = some x → k + 1 < xs.length →
    ∃ total, x.result = .ok (x.batch, total) ∧ x.batch ≠ [] ∧
      ((xs.take (k + 1)).flatMap PageCall.batch).length < total.toNat
  /-- **A total that stays the same bounds the pages**, and the search does not end before as much is there
  or a page is empty. -/
  bounded : ∀ total, total.toNat < UInt32.size → PageCall.Constant total xs →
    xs.length ≤ max 1 total.toNat ∧ ∀ found, result = .ok found →
      total.toNat ≤ found.length ∨ ∃ x, xs.getLast? = some x ∧ x.batch = []
  /-- **A list that is served in parts is found**, with one page for each part, or one if there is none. -/
  served : ∀ parts : List (List RawTransaction), (∀ part ∈ parts, part ≠ []) →
    parts.flatten.length < UInt32.size →
    (∀ (k : Nat) (x : PageCall), xs[k]? = some x →
      x.result = .ok (parts.getD k [], UInt64.ofNat parts.flatten.length)) →
      result = .ok parts.flatten ∧ xs.length = max 1 parts.length

theorem length_le_flatten {α : Type} {parts : List (List α)} (h : ∀ part ∈ parts, part ≠ []) :
    parts.length ≤ parts.flatten.length := by
  have hones : ∀ n ∈ parts.map List.length, 1 ≤ n :=
    List.forall_mem_map.2 fun part hpart => List.length_pos_iff.2 (h part hpart)
  have hsum := List.length_le_sum_of_one_le (parts.map List.length) hones
  rwa [List.length_map, ← List.length_flatten] at hsum

theorem toNat_ofNat_of_lt_size {n : Nat} (h : n < UInt32.size) : (UInt64.ofNat n).toNat = n := by
  have hsize : UInt32.size ≤ UInt64.size := by decide
  exact UInt64.toNat_ofNat_of_lt' (Nat.lt_of_lt_of_le h hsize)

theorem searched_of_paging [Quantity τ] {c : Client ν} {height : Height} {perPage : UInt32}
    {deadline : Deadline} {s t : Session τ ν} {xs : List PageCall}
    {result : Except NodeError (List RawTransaction)}
    (hp : Asking.Performs (c.searchAll height perPage deadline)
      (c.noting.searchAll height perPage deadline) s (xs.flatMap PageCall.notes) result t)
    (h : Paging c height perPage deadline 0 (UInt32.size - 1) [] s xs result t) :
    Searched c height perPage deadline s xs result t := by
  have hlength := h.length_le_left
  have hcalled : ∀ (k : Nat) (x : PageCall), xs[k]? = some x →
      ∃ s t : Session τ ν, c.Called (pageOf height perPage k) deadline s x t := by
    intro k x hx
    obtain ⟨s', t', -, hcall⟩ := h.called (I := fun _ => True) trivial (by simp) k x hx
    rw [Nat.zero_add] at hcall
    exact ⟨s', t', hcall⟩
  have htold : ∀ x ∈ xs, x.Told := by
    intro x hx
    obtain ⟨k, hk⟩ := List.mem_iff_getElem?.1 hx
    obtain ⟨s', t', hcall⟩ := hcalled k x hk
    exact hcall.told
  refine ⟨hp, fun k x hx n hn => ?_, ?_, htold, fun x hx => (htold x hx).length_le_one, h.of_error,
    fun error => h.exists_error, h.result_eq, fun k x hx hlt => ?_,
    fun total htotal hconst => ⟨?_, fun found hfound => h.enough hconst ?_ hfound⟩,
    fun parts hparts hsize hserved => h.served hparts ?_ ?_ (by decide) hserved⟩
  · obtain ⟨s', t', hcall⟩ := hcalled k x hx
    obtain ⟨hpath, hquery⟩ := hcall.requests n hn
    have hk : k < xs.length := (List.getElem?_eq_some_iff.1 hx).1
    rw [c.query_pageOf height perPage (by omega)] at hquery
    exact ⟨hpath, hquery⟩
  · rintro rfl
    cases h
  · simpa using h.goes_on k x hx hlt
  · simpa using h.length_le hconst
  · -- there are numbers enough for a page for each transaction
    rw [List.length_nil]
    omega
  · rw [toNat_ofNat_of_lt_size hsize, List.length_nil, Nat.zero_add]
  · have hparts' := length_le_flatten hparts
    omega

theorem does_searchAll [Quantity τ] (c : Client ν) (height : Height) (perPage : UInt32)
    (deadline : Deadline) (s : Session τ ν) : ∃ xs result t,
      Paging c height perPage deadline 0 (UInt32.size - 1) [] s xs result t ∧
        Searched c height perPage deadline s xs result t := by
  obtain ⟨notes, result, t, hp, xs, rfl, hpaging⟩ :=
    c.does_searchFrom height perPage deadline 0 (UInt32.size - 1) [] s
  exact ⟨xs, result, t, hpaging, searched_of_paging hp hpaging⟩

/-- The calls for pages that a node answers: each takes one exchange and brings what is served on its page.
If the search is cancelled, the last call is, before its exchange. -/
structure Served (P : Nat → List RawTransaction × UInt64 → Prop) (reason : Prop) (xs : List PageCall)
    (result : Except NodeError (List RawTransaction)) : Prop where
  pages : ∀ k x, xs[k]? = some x → (∃ page, x.notes.length = 1 ∧ x.result = .ok page ∧ P k page) ∨
    k + 1 = xs.length ∧ x.notes = [] ∧ x.result = .error .cancelled
  ends : result = .ok (xs.flatMap PageCall.batch) ∧ (∀ x ∈ xs, x.notes.length = 1) ∨
    result = .error .cancelled ∧ reason ∧ ∃ x, xs.getLast? = some x ∧ x.notes = []

section Serves

variable [Quantity τ] {c : Client ν} {height : Height} {perPage : UInt32} {deadline : Deadline}
  {P : Nat → List RawTransaction × UInt64 → Prop} {I : Session τ ν → Prop} {reason : Prop}
  {s : Session τ ν}

/-- **A node that answers keeps nobody from the end.** -/
theorem exists_served (hserves : c.Serves height perPage P) (hg : Grants .chain deadline I reason)
    (hstart : I s) : ∃ xs result t,
      Searched c height perPage deadline s xs result t ∧ Served P reason xs result := by
  obtain ⟨xs, result, t, hpaging, hsearched⟩ := c.does_searchAll height perPage deadline s
  have hanswered : ∀ (k : Nat) (x : PageCall), xs[k]? = some x →
      (∃ page, x.notes.length = 1 ∧ x.result = .ok page ∧ P k page) ∨
        x.notes = [] ∧ x.result = .error .cancelled ∧ reason := by
    intro k x hx
    have hcall := hpaging.answered hserves (by decide) hg hstart hx
    rwa [Nat.zero_add] at hcall
  refine ⟨xs, result, t, hsearched, fun k x hx => ?_, ?_⟩
  · refine (hanswered k x hx).imp_right fun ⟨hnone, hcancelled, _⟩ => ?_
    exact ⟨(hsearched.failed k x _ hx hcancelled).1, hnone, hcancelled⟩
  · by_cases hcut : ∃ x ∈ xs, x.result = .error .cancelled
    · obtain ⟨x, hx, hcancelled⟩ := hcut
      obtain ⟨k, hk⟩ := List.mem_iff_getElem?.1 hx
      obtain ⟨hlast, hresult⟩ := hsearched.failed k x _ hk hcancelled
      obtain ⟨page, -, hok, -⟩ | ⟨hnone, -, hreason⟩ := hanswered k x hk
      · cases hcancelled.symm.trans hok
      · refine .inr ⟨hresult, hreason, x, ?_, hnone⟩
        rw [List.getLast?_eq_getElem?, ← hlast]
        exact hk
    · have hall : ∀ x ∈ xs, x.notes.length = 1 ∧ ∃ page, x.result = .ok page := by
        intro x hx
        obtain ⟨k, hk⟩ := List.mem_iff_getElem?.1 hx
        obtain ⟨page, hone, hok, -⟩ | ⟨-, hcancelled, -⟩ := hanswered k x hk
        · exact ⟨hone, page, hok⟩
        · exact absurd ⟨x, hx, hcancelled⟩ hcut
      exact .inl ⟨hsearched.found fun x hx => (hall x hx).2, fun x hx => (hall x hx).1⟩

end Serves

/-- What a search gives at a node that answers whenever a page is asked for. It is cancelled only for this
reason. -/
structure Finds [Quantity τ] (c : Client ν) (height : Height) (perPage : UInt32) (deadline : Deadline)
    (reason : Prop) (s : Session τ ν) : Prop where
  /-- **A node that always tells the same total** is asked once for each page, and for no more of them. -/
  constant : ∀ total : UInt64, total.toNat < UInt32.size →
    c.Serves height perPage (fun _ page => page.2 = total) → ∃ xs result t,
      Searched c height perPage deadline s xs result t ∧ xs.length ≤ max 1 total.toNat ∧
        Served (fun _ page => page.2 = total) reason xs result
  /-- **A list that is served in parts is found**, or what was served of it when the search is cancelled. -/
  parts : ∀ parts : List (List RawTransaction), (∀ part ∈ parts, part ≠ []) →
    parts.flatten.length < UInt32.size →
    c.Serves height perPage
      (fun k page => page = (parts.getD k [], UInt64.ofNat parts.flatten.length)) → ∃ xs result t,
      Searched c height perPage deadline s xs result t ∧
        Served (fun k page => page = (parts.getD k [], UInt64.ofNat parts.flatten.length)) reason xs
          result ∧
        (result = .ok parts.flatten ∧ xs.length = max 1 parts.length ∧ (∀ x ∈ xs, x.notes.length = 1) ∨
          result = .error .cancelled ∧ reason)

theorem finds_of_grants [Quantity τ] (c : Client ν) (height : Height) (perPage : UInt32)
    {deadline : Deadline} {I : Session τ ν → Prop} {reason : Prop} {s : Session τ ν}
    (hg : Grants .chain deadline I reason) (hstart : I s) :
    Finds c height perPage deadline reason s where
  constant total htotal hserves := by
    obtain ⟨xs, result, t, hsearched, hserved⟩ := exists_served hserves hg hstart
    have hconst : PageCall.Constant total xs := by
      intro x hx batch told htold
      obtain ⟨k, hk⟩ := List.mem_iff_getElem?.1 hx
      obtain ⟨page, -, hok, rfl⟩ | ⟨-, -, hcancelled⟩ := hserved.pages k x hk
      · cases htold.symm.trans hok
        rfl
      · cases htold.symm.trans hcancelled
    exact ⟨xs, result, t, hsearched, (hsearched.bounded total htotal hconst).1, hserved⟩
  parts parts hparts hsize hserves := by
    obtain ⟨xs, result, t, hsearched, hserved⟩ := exists_served hserves hg hstart
    refine ⟨xs, result, t, hsearched, hserved, ?_⟩
    obtain ⟨hresult, hone⟩ | ⟨hresult, hreason, -⟩ := hserved.ends
    · have hpages : ∀ (k : Nat) (x : PageCall), xs[k]? = some x →
          x.result = .ok (parts.getD k [], UInt64.ofNat parts.flatten.length) := by
        intro k x hk
        obtain ⟨page, -, hok, rfl⟩ | ⟨-, -, hcancelled⟩ := hserved.pages k x hk
        · exact hok
        · cases hresult.symm.trans (hsearched.failed k x _ hk hcancelled).2
      obtain ⟨hfound, hlength⟩ := hsearched.served parts hparts hsize hpages
      exact .inl ⟨hfound, hlength, hone⟩
    · exact .inr ⟨hresult, hreason⟩

/-- **A search is complete and comes to an end.** Whatever the node tells, the pages are asked for one after
the other from the first one on. If one fails, its error is the result, and it is the last; otherwise the
result is what the pages bring. There are no more pages than the total if that stays the same, and a list
that is served in parts, none of them empty, is found as it is, with one page for each part (`Searched`).

A node that answers whenever a page is asked for, and always with the same total, is asked once for each
page, unless the search is cancelled. If it serves a list in parts, the list is found (`Finds`). Where tokens
come back and are counted in exact fractions, the search is cancelled only if there is a deadline. -/
theorem searchAll_paged (c : Client ν) (height : Height) (perPage : UInt32) (deadline : Deadline) :
    (∀ (τ : Type) [Quantity τ] (s : Session τ ν), (∃ xs result t,
      Searched c height perPage deadline s xs result t) ∧ Finds c height perPage deadline True s) ∧
    ∀ s : Session ℚ ν, Flows .chain s → Finds c height perPage deadline deadline.isSome s := by
  refine ⟨fun τ _ s => ⟨?_, c.finds_of_grants height perPage (grants_any .chain deadline) trivial⟩,
    fun s hflows => c.finds_of_grants height perPage (grants_flows .chain deadline) hflows⟩
  obtain ⟨xs, result, t, -, hsearched⟩ := c.does_searchAll height perPage deadline s
  exact ⟨xs, result, t, hsearched⟩

/-- What a node tells of some transactions, if there are three on all pages. -/
def bodyOfThree (hashes : List String) : String :=
  let items := hashes.map fun hash => "\x7b\"hash\":\"" ++ hash ++ "\",\"height\":\"8\"\x7d"
  "\x7b\"result\":\x7b\"txs\":[" ++ ",".intercalate items ++ "],\"total_count\":\"3\"\x7d\x7d"

/-- A client of a node with three transactions, two of them on the first page. -/
def ofThree : Client Unit where
  transport r now node :=
    let hashes := if r.value? "page" = some "1" then ["A", "B"]
      else if r.value? "page" = some "2" then ["C"] else []
    ({ outcome := .ok { body := bodyOfThree hashes }, finished := now }, node)

/-- The transactions of that node, part by part. -/
def partsOfThree : List (List RawTransaction) :=
  [[{ hash := "A", height := "8" }, { hash := "B", height := "8" }], [{ hash := "C", height := "8" }]]

theorem serves_ofThree : ofThree.Serves 8 2 fun k page =>
    page = (partsOfThree.getD k [], UInt64.ofNat partsOfThree.flatten.length) := by
  intro k hk sent now node _ hquery
  have hpage : sent.value? "page" = some (toString (k + 1)) := by
    rw [Request.value?, hquery, ofThree.query_pageOf 8 2 hk]
    rfl
  have hnumber : ∀ m, toString (k + 1) = toString m ↔ k + 1 = m :=
    fun m => ⟨Text.toString_inj, congrArg toString⟩
  have hfirst : toString (k + 1) = "1" ↔ k + 1 = 1 := hnumber 1
  have hsecond : toString (k + 1) = "2" ↔ k + 1 = 2 := hnumber 2
  refine ⟨_, rfl, (by decide : 200 < 400), _, ?_, rfl⟩
  simp only [hpage, Option.some.injEq, hfirst, hsecond]
  match k with
  | 0 => decide +kernel
  | 1 => decide +kernel
  | k + 2 =>
    rw [if_neg (by omega), if_neg (by omega)]
    show _ = Except.ok ([], _)
    decide +kernel

/-- All three transactions are found on two pages. -/
theorem searchAll_paged_three :
    let s : Session ℚ Unit := .start ofThree.config ()
    (∀ part ∈ partsOfThree, part ≠ []) ∧ partsOfThree.flatten.length < UInt32.size ∧
      Flows .chain s ∧ ∃ xs t,
        Searched ofThree 8 2 none s xs
          (.ok [{ hash := "A", height := "8" }, { hash := "B", height := "8" },
            { hash := "C", height := "8" }]) t ∧ xs.length = 2 := by
  intro s
  have hparts : ∀ part ∈ partsOfThree, part ≠ [] := by decide
  have hsize : partsOfThree.flatten.length < UInt32.size := by decide
  have hflows : Flows .chain s := flows_start ofThree.config ()
  obtain ⟨xs, result, t, hsearched, -, ⟨rfl, hlength, -⟩ | ⟨-, hsome⟩⟩ :=
    ((searchAll_paged ofThree 8 2 none).2 s hflows).parts partsOfThree hparts hsize serves_ofThree
  · exact ⟨hparts, hsize, hflows, xs, t, hsearched, hlength⟩
  · cases hsome

end Client

end ChainIndex
