import Mewtual.Doc.CatchupPage

/-!
# Following continuations

A requester follows continuations from position zero. Between two pages the provider's log
may grow and the requester may name other heads, since the pages it applied moved its
frontier.

Main results:

- Theorem {lit}`CatchupDoc.paging_never_withholds`: pages skip only what is behind a named
  head, walks terminate, and a finished walk has sent everything else.
-/

namespace Mewtual

namespace CatchupDoc

variable {ε σ : Type}

/-! ## Growth -/

theorem grows_log {doc next : CatchupDoc} (h : Relation.ReflTransGen Grows doc next) :
    doc.log <+: next.log ∧ doc.graph.Extends next.graph := by
  induction h with
  | refl => exact ⟨List.prefix_rfl, .refl _⟩
  | tail _ hstep ih =>
    rcases ih with ⟨hlog, hgraph⟩
    cases hstep with
    | loaded hextends => exact ⟨hlog, hgraph.trans hextends⟩
    | recorded op =>
      unfold record
      split
      · exact ⟨hlog, hgraph⟩
      · exact ⟨hlog.trans (List.prefix_append _ _), hgraph⟩

theorem Reachable.grows {doc next : CatchupDoc} (h : doc.Reachable)
    (hgrows : Relation.ReflTransGen Grows doc next) : next.Reachable := by
  rcases h with ⟨graph, ops, hbefore⟩
  exact ⟨graph, ops, hbefore.trans hgrows⟩

/-- A position that was in the log holds the same operation later. -/
theorem getElem?_of_prefix {before after : List LoggedOp} (hlog : before <+: after)
    {position : Nat} (hlt : position < before.length) : before[position]? = after[position]? := by
  rcases hlog with ⟨rest, rfl⟩
  rw [List.getElem?_append_left hlt]

theorem BehindHeads.mono {small large : DepGraph ChangeHash} (hextends : small.Extends large)
    {heads : List ChangeHash} {op : LoggedOp} (h : BehindHeads small heads op) :
    BehindHeads large heads op := by
  rcases h with ⟨head, hhead, change, hcarried, hbehind⟩
  exact ⟨head, hhead, change, hcarried, hbehind.mono hextends⟩

/-! ## Walks -/

/-- One answered request for a page. -/
structure PageCall (encrypt : LoggedOp → Except ε σ) where
  doc : CatchupDoc
  heads : List ChangeHash
  start : Nat
  budget : Nat
  out : List σ
  next : Option Nat
  returned : doc.exportCatchupPage encrypt heads start budget = .ok (out, next)

variable {encrypt : LoggedOp → Except ε σ}

namespace PageCall

/-- The positions and operations the page sent. -/
def sent (call : PageCall encrypt) : List (Nat × LoggedOp) :=
  call.doc.sentBy call.heads call.start call.budget

theorem next_eq (call : PageCall encrypt) :
    call.next = call.doc.continuation
      (call.doc.pageInner call.heads call.start call.budget true) :=
  (exportCatchupPage_eq_ok call.returned).2

/-- What a page sends is in its answer. -/
theorem mem_out (call : PageCall encrypt) {position : Nat} {op : LoggedOp}
    (h : (position, op) ∈ call.sent) : ∃ envelope ∈ call.out, encrypt op = .ok envelope := by
  have hout := (exportCatchupPage_eq_ok call.returned).1
  exact mem_of_mapM_eq_ok hout h

/-- Where the page stopped scanning. -/
theorem stop_eq (call : PageCall encrypt) {position : Nat}
    (h : position < call.next.getD call.doc.log.length) :
    position < (call.doc.pageInner call.heads call.start call.budget true).position := by
  rw [call.next_eq, continuation] at h
  split at h <;> rename_i hlt
  · exact h
  · exact h.trans_le (Nat.not_lt.mp hlt)

/-- The next page starts where this one stopped, on a log that only grew. -/
def Continues (earlier later : PageCall encrypt) : Prop :=
  earlier.next = some later.start ∧ Relation.ReflTransGen Grows earlier.doc later.doc

end PageCall

/-- A walk of pages from position zero. -/
structure Walk (first : PageCall encrypt) (rest : List (PageCall encrypt)) : Prop where
  start : first.start = 0
  reachable : first.doc.Reachable
  chain : (first :: rest).IsChain PageCall.Continues

/-- The last page of a walk. -/
def lastCall (first : PageCall encrypt) (rest : List (PageCall encrypt)) : PageCall encrypt :=
  rest.getLast?.getD first

theorem lastCall_cons (first second : PageCall encrypt) (rest : List (PageCall encrypt)) :
    lastCall first (second :: rest) = lastCall second rest := by
  simp [lastCall, List.getLast?_cons]

theorem lastCall_mem (first : PageCall encrypt) (rest : List (PageCall encrypt)) :
    lastCall first rest ∈ first :: rest := by
  induction rest generalizing first with
  | nil => simp [lastCall]
  | cons second rest ih =>
    rw [lastCall_cons]
    exact List.mem_cons_of_mem _ (ih second)

variable {first : PageCall encrypt} {rest : List (PageCall encrypt)}

/-- Along a chain of pages every document grows from the first. -/
theorem grows_lastCall (h : (first :: rest).IsChain PageCall.Continues) :
    Relation.ReflTransGen Grows first.doc (lastCall first rest).doc := by
  induction rest generalizing first with
  | nil => exact .refl
  | cons second rest ih =>
    rw [List.isChain_cons_cons] at h
    rw [lastCall_cons]
    exact h.1.2.trans (ih h.2)

/-- Every position from the first page's start on is sent by some page, or carries a change
behind a head that some page named. -/
theorem chain_accounts (hchain : (first :: rest).IsChain PageCall.Continues)
    (hreachable : first.doc.Reachable) (hdone : (lastCall first rest).next = none) {position : Nat}
    {op : LoggedOp} (hstart : first.start ≤ position)
    (hop : (lastCall first rest).doc.log[position]? = some op) :
    ∃ call ∈ first :: rest, (position, op) ∈ call.sent ∨
      BehindHeads (lastCall first rest).doc.graph call.heads op := by
  induction rest generalizing first with
  | nil =>
    have hlt : position < first.next.getD first.doc.log.length := by
      rw [show first.next = none from hdone]
      exact (List.getElem?_eq_some_iff.mp hop).1
    exact ⟨first, List.mem_cons_self,
      page_skips hreachable first.heads first.start first.budget hstart (first.stop_eq hlt) hop⟩
  | cons second rest ih =>
    rcases grows_log (grows_lastCall hchain) with ⟨hlog, hgraph⟩
    rw [List.isChain_cons_cons] at hchain
    rcases hchain with ⟨⟨hnext, hgrows⟩, hchain⟩
    rw [lastCall_cons] at hdone hop hlog hgraph ⊢
    by_cases hfirst : position < second.start
    · have hinside : second.start < first.doc.log.length :=
        (page_advances (first.next_eq ▸ hnext)).2.1
      have hlt : position < first.next.getD first.doc.log.length := by
        rw [hnext]
        exact hfirst
      rw [← getElem?_of_prefix hlog (hfirst.trans hinside)] at hop
      refine ⟨first, List.mem_cons_self, ?_⟩
      rcases page_skips hreachable first.heads first.start first.budget hstart
        (first.stop_eq hlt) hop with hsent | hbehind
      · exact .inl hsent
      · exact .inr (hbehind.mono hgraph)
    · rcases ih hchain (hreachable.grows hgrows) hdone (Nat.not_lt.mp hfirst) hop with
        ⟨call, hmem, hcall⟩
      exact ⟨call, List.mem_cons_of_mem _ hmem, hcall⟩

/-- A chain of pages is no longer than the log it has left. -/
theorem chain_length {limit : Nat} (hchain : (first :: rest).IsChain PageCall.Continues)
    (hlimit : ∀ call ∈ first :: rest, call.doc.log.length ≤ limit) :
    first.start + rest.length ≤ max first.start limit := by
  induction rest generalizing first with
  | nil => simp
  | cons second rest ih =>
    rw [List.isChain_cons_cons] at hchain
    rcases hchain with ⟨⟨hnext, -⟩, hchain⟩
    rcases page_advances (first.next_eq ▸ hnext) with ⟨hstart, hinside, -⟩
    have hfirst := hlimit first List.mem_cons_self
    have hrest := ih hchain fun call hmem => hlimit call (List.mem_cons_of_mem _ hmem)
    rw [List.length_cons]
    omega

/-- On a log that does not grow, following continuations reaches the end, whatever heads and
budgets the requester names at each position. -/
theorem chain_completes {doc : CatchupDoc} (heads : Nat → List ChangeHash) (budget : Nat → Nat)
    (hencrypt : ∀ op ∈ doc.log, ∃ envelope, encrypt op = .ok envelope) (start : Nat) :
    ∃ (first : PageCall encrypt) (rest : List (PageCall encrypt)),
      first.start = start ∧ (first :: rest).IsChain PageCall.Continues ∧
      (∀ call ∈ first :: rest, call.doc = doc ∧ call.heads = heads call.start ∧
        call.budget = budget call.start) ∧
      (lastCall first rest).next = none := by
  induction hleft : doc.log.length - start using Nat.strong_induction_on generalizing start with
  | _ left ih =>
    have hsent : ∀ entry ∈ doc.sentBy (heads start) start (budget start),
        ∃ envelope, encrypt entry.2 = .ok envelope := by
      intro entry hmem
      exact hencrypt entry.2 (List.mem_of_getElem? (page_logged hmem))
    rcases exists_mapM_eq_ok hsent with ⟨out, hout⟩
    let first : PageCall encrypt :=
      ⟨doc, heads start, start, budget start, out, _, exportCatchupPage_of_mapM hout⟩
    cases hnext : first.next with
    | none =>
      refine ⟨first, [], rfl, List.isChain_singleton _, ?_, hnext⟩
      intro call hmem
      rw [List.mem_singleton.mp hmem]
      exact ⟨rfl, rfl, rfl⟩
    | some next =>
      rcases page_advances (first.next_eq ▸ hnext) with ⟨hstart, hinside, -⟩
      have hless : doc.log.length - next < left := by
        have hlen : first.doc.log.length = doc.log.length := rfl
        have hbegin : first.start = start := rfl
        omega
      rcases ih _ hless next rfl with ⟨second, rest, hsecond, hchain, hcalls, hdone⟩
      refine ⟨first, second :: rest, rfl, ?_, ?_, ?_⟩
      · have hcontinues : first.Continues second := by
          refine ⟨by rw [hnext, hsecond], ?_⟩
          rw [(hcalls second List.mem_cons_self).1]
        exact hchain.cons_cons hcontinues
      · intro call hmem
        rcases List.mem_cons.mp hmem with rfl | hrest
        · exact ⟨rfl, rfl, rfl⟩
        · exact hcalls call hrest
      · rw [lastCall_cons]
        exact hdone

/-! ## Nothing is withheld -/

/-- The whole difference is what the log holds that is not behind a named head. -/
theorem mem_catchupSince {doc : CatchupDoc} {heads : List ChangeHash} {op : LoggedOp} :
    op ∈ doc.catchupSince heads ↔ op ∈ doc.log ∧ ¬ BehindHeads doc.graph heads op := by
  have hknown : Known (doc.heldClosure heads) op ↔ BehindHeads doc.graph heads op := by
    simp only [Known, heldClosure, DepGraph.mem_closure, List.mem_reverse, BehindHeads]
    constructor
    · rintro ⟨change, hcarried, head, hhead, hbehind⟩
      exact ⟨head, hhead, change, hcarried, hbehind⟩
    · rintro ⟨head, hhead, change, hcarried, hbehind⟩
      exact ⟨change, hcarried, head, hhead, hbehind⟩
  simp [catchupSince, hknown]

/-- A finished walk has sent everything that is not behind a head it named. -/
theorem Walk.sends (hwalk : Walk first rest) (hdone : (lastCall first rest).next = none)
    {heads : List ChangeHash} (hheads : ∀ call ∈ first :: rest, ∀ head ∈ call.heads, head ∈ heads)
    {op : LoggedOp} (hop : op ∈ (lastCall first rest).doc.catchupSince heads) :
    ∃ call ∈ first :: rest, ∃ envelope ∈ call.out, encrypt op = .ok envelope := by
  rcases mem_catchupSince.mp hop with ⟨hlog, hbeyond⟩
  rcases List.mem_iff_getElem?.mp hlog with ⟨position, hposition⟩
  have hstart : first.start ≤ position := by
    rw [hwalk.start]
    exact Nat.zero_le position
  rcases chain_accounts hwalk.chain hwalk.reachable hdone hstart hposition with
    ⟨call, hcall, hsent | ⟨head, hhead, hbehind⟩⟩
  · exact ⟨call, hcall, call.mem_out hsent⟩
  · exact absurd ⟨head, hheads call hcall head hhead, hbehind⟩ hbeyond

/-- Paging never withholds history. Up to where it stops, a page skips only positions behind a
head it was given, and a continuation is beyond its start. Walks are bounded by the log, they
can be followed to the end of a log that stands still, and a walk that reached the end has
sent everything that {lit}`export_catchup_since` would send. -/
theorem paging_never_withholds (encrypt : LoggedOp → Except ε σ) :
    (∀ call : PageCall encrypt, call.doc.Reachable →
      (∀ position op, call.start ≤ position →
        position < call.next.getD call.doc.log.length →
        call.doc.log[position]? = some op →
        (position, op) ∈ call.sent ∨ BehindHeads call.doc.graph call.heads op) ∧
      (∀ entry ∈ call.sent, ∃ envelope ∈ call.out, encrypt entry.2 = .ok envelope) ∧
      ∀ next ∈ call.next, call.start < next) ∧
    (∀ (first : PageCall encrypt) (rest : List (PageCall encrypt)) (limit : Nat),
      Walk first rest → (∀ call ∈ first :: rest, call.doc.log.length ≤ limit) →
      rest.length ≤ limit) ∧
    (∀ doc : CatchupDoc, doc.Reachable →
      (∀ op ∈ doc.log, ∃ envelope, encrypt op = .ok envelope) →
      ∀ (heads : Nat → List ChangeHash) (budget : Nat → Nat),
      ∃ (first : PageCall encrypt) (rest : List (PageCall encrypt)), Walk first rest ∧
        (∀ call ∈ first :: rest, call.doc = doc ∧ call.heads = heads call.start ∧
          call.budget = budget call.start) ∧
        (lastCall first rest).next = none) ∧
    (∀ (first : PageCall encrypt) (rest : List (PageCall encrypt)), Walk first rest →
      (lastCall first rest).next = none →
      ∀ heads : List ChangeHash, (∀ call ∈ first :: rest, ∀ head ∈ call.heads, head ∈ heads) →
      ∀ op ∈ (lastCall first rest).doc.catchupSince heads,
        ∃ call ∈ first :: rest, ∃ envelope ∈ call.out, encrypt op = .ok envelope) := by
  refine ⟨?_, ?_, ?_, ?_⟩
  · intro call hreachable
    refine ⟨?_, fun entry hmem => call.mem_out hmem, ?_⟩
    · intro position op hstart hstop hop
      exact page_skips hreachable call.heads call.start call.budget hstart (call.stop_eq hstop) hop
    · intro next hnext
      exact (page_advances (call.next_eq ▸ hnext)).1
  · intro first rest limit hwalk hlimit
    have hlength := chain_length hwalk.chain hlimit
    rw [hwalk.start] at hlength
    omega
  · intro doc hreachable hencrypt heads budget
    rcases chain_completes heads budget hencrypt 0 with
      ⟨first, rest, hstart, hchain, hcalls, hdone⟩
    refine ⟨first, rest, ⟨hstart, ?_, hchain⟩, hcalls, hdone⟩
    rw [(hcalls first List.mem_cons_self).1]
    exact hreachable
  · intro first rest hwalk hdone heads hheads op hop
    exact hwalk.sends hdone hheads hop

/-- A document of two operations, of which the second depends on the first. -/
def twoOpDoc : CatchupDoc :=
  restore ⟨{1#256, 2#256}, fun hash => if hash = 2#256 then [1#256] else []⟩
    [⟨1#256, .docRegistry, 100, some 1#256⟩, ⟨2#256, .docRegistry, 100, some 2#256⟩]

/-- A requester without heads walks the two operations to their end and receives both. -/
theorem paging_never_withholds_two_ops :
    ∃ (first : PageCall (Except.ok : LoggedOp → Except Unit LoggedOp)) (rest : List _),
      Walk first rest ∧ (lastCall first rest).next = none ∧
      ∀ op ∈ twoOpDoc.log, ∃ call ∈ first :: rest, op ∈ call.out := by
  have hpaging := paging_never_withholds (Except.ok : LoggedOp → Except Unit LoggedOp)
  rcases hpaging with ⟨-, -, hcompletes, hsends⟩
  have hreachable : twoOpDoc.Reachable := ⟨_, _, .refl⟩
  rcases hcompletes twoOpDoc hreachable (fun op _ => ⟨op, rfl⟩) (fun _ => []) (fun _ => 0) with
    ⟨first, rest, hwalk, hcalls, hdone⟩
  refine ⟨first, rest, hwalk, hdone, ?_⟩
  intro op hop
  have hlast : lastCall first rest ∈ first :: rest := lastCall_mem first rest
  have hheads : ∀ call ∈ first :: rest, ∀ head ∈ call.heads, head ∈ ([] : List ChangeHash) := by
    intro call hcall head hhead
    rwa [(hcalls call hcall).2.1] at hhead
  have hsince : op ∈ (lastCall first rest).doc.catchupSince [] := by
    rw [(hcalls _ hlast).1, mem_catchupSince]
    refine ⟨hop, ?_⟩
    rintro ⟨head, hhead, -⟩
    simp at hhead
  rcases hsends first rest hwalk hdone [] hheads op hsince with ⟨call, hcall, envelope, hout, heq⟩
  cases heq
  exact ⟨call, hcall, hout⟩

end CatchupDoc

end Mewtual
