import Mewtual.Doc.AncestryIndex
import Mewtual.Lib.Graph
import Mewtual.Lib.Machine
import Mewtual.Store.Pad

/-!
# Position paging of a document log

A requester names the heads it holds and receives the operations it lacks, page by page, by
position in the provider's append-only log. A page skips what a bounded walk or a certified
range shows to be behind a named head, and sends everything else.

The Automerge graph is the finite set of available changes with their dependencies. Of a
signed operation the pages read its hash, its length and the change its delta carries, if the
delta parses.

Main results:

- Theorem {lit}`CatchupDoc.page_skips`: a skipped position is behind a named head.
- Theorem {lit}`CatchupDoc.page_advances`: a continuation is beyond the page's start.
-/

namespace Mewtual

def maxCatchupPageScannedOps : Nat := 256

def maxCatchupPageClosureSteps : Nat := 2048

def opPadFloor : Nat := 512

def opPadCeiling : Nat := 1024 * 1024

/-- The sizes that operations are padded to. -/
def opLadder : Pad.Ladder := ⟨opPadFloor, opPadCeiling, ⟨9, rfl⟩, ⟨20, rfl⟩, by decide⟩

/-- What paging reads of a signed operation. -/
structure LoggedOp where
  opHash : Hash32
  docType : DocType
  encodedLen : Nat
  /-- Hash of the change the delta carries, if it parses. -/
  carried : Option ChangeHash
  deriving DecidableEq

/-- The parts of a document that catch-up reads. -/
structure CatchupDoc where
  graph : DepGraph ChangeHash
  log : List LoggedOp
  applied : Finset Hash32
  index : AncestryIndex

namespace CatchupDoc

/-! ## Growing the log -/

/-- Certify the position of an operation whose change the graph holds. -/
def indexCatchupOp (index : AncestryIndex) (graph : DepGraph ChangeHash) (position : Nat)
    (op : LoggedOp) : AncestryIndex :=
  if isEpochManagedDocType op.docType then index
  else match op.carried with
    | none => index
    | some hash =>
      if hash ∈ graph.available then index.record position hash (graph.deps hash) else index

/-- The log with one more operation. -/
def appended (doc : CatchupDoc) (op : LoggedOp) : CatchupDoc :=
  { doc with
    log := doc.log ++ [op]
    applied := insert op.opHash doc.applied
    index := indexCatchupOp doc.index doc.graph doc.log.length op }

/-- Append an operation that was not applied before. -/
def record (doc : CatchupDoc) (op : LoggedOp) : CatchupDoc :=
  if op.opHash ∈ doc.applied then doc else doc.appended op

/-- Rebuild a document from a saved graph and log. The index is never saved. -/
def restore (graph : DepGraph ChangeHash) (ops : List LoggedOp) : CatchupDoc :=
  ops.foldl appended ⟨graph, [], ∅, .empty⟩

/-- One growth of a live document: its graph receives changes, or an operation is recorded. -/
inductive Grows : CatchupDoc → CatchupDoc → Prop where
  | loaded {doc : CatchupDoc} {graph : DepGraph ChangeHash} (hextends : doc.graph.Extends graph) :
      Grows doc { doc with graph := graph }
  | recorded (doc : CatchupDoc) (op : LoggedOp) : Grows doc (doc.record op)

/-- A document that was restored and then grew. A new document restores an empty log. -/
def Reachable (doc : CatchupDoc) : Prop :=
  ∃ graph ops, Relation.ReflTransGen Grows (restore graph ops) doc

/-! ## The named heads -/

/-- Every change at or behind the heads that the graph holds. -/
def heldClosure (doc : CatchupDoc) (heads : List ChangeHash) : Finset ChangeHash :=
  doc.graph.closure heads.reverse ∅

/-- The bounded walk. Every popped hash, copied range and pushed dependency is charged. -/
def walkBounded (doc : CatchupDoc) (remaining : Nat) (stack : List ChangeHash)
    (visited : Finset ChangeHash) (ranges : List LogRange) :
    Finset ChangeHash × List LogRange :=
  match remaining, stack with
  | 0, _ => (visited, ranges)
  | _ + 1, [] => (visited, ranges)
  | remaining + 1, hash :: rest =>
    if hash ∈ visited ∨ hash ∉ doc.graph.available then
      doc.walkBounded remaining rest visited ranges
    else
      let certified := ((doc.index.get hash).map Certificate.ranges).getD []
      let copied := certified.take remaining
      let remaining := remaining - copied.length
      if (doc.index.get hash).any (·.complete) ∧ copied = certified then
        doc.walkBounded remaining rest (insert hash visited) (ranges ++ copied)
      else
        let deps := doc.graph.deps hash
        let take := min (min deps.length remaining) (maxCatchupPageClosureSteps - rest.length)
        doc.walkBounded (remaining - take) ((deps.take take).reverse ++ rest)
          (insert hash visited) (ranges ++ copied)
termination_by remaining

/-- Conservative known hashes and certified log ranges. -/
def heldClosureBounded (doc : CatchupDoc) (heads : List ChangeHash) :
    Finset ChangeHash × List LogRange :=
  let (visited, ranges) := doc.walkBounded maxCatchupPageClosureSteps
    (heads.take maxCatchupPageClosureSteps).reverse ∅ []
  (visited, mergeRanges ranges)

/-! ## Pages -/

/-- The change the operation carries is known to the requester. -/
def Known (held : Finset ChangeHash) (op : LoggedOp) : Prop := ∃ hash ∈ op.carried, hash ∈ held

instance (held : Finset ChangeHash) (op : LoggedOp) : Decidable (Known held op) :=
  inferInstanceAs (Decidable (∃ hash ∈ op.carried, _))

/-- Everything the requester does not hold, by the full walk. -/
def catchupSince (doc : CatchupDoc) (heads : List ChangeHash) : List LoggedOp :=
  doc.log.filter fun op => ¬ Known (doc.heldClosure heads) op

/-- The padded body, the envelope, the pad footer, the tag and the list framing. -/
def sealedBytes (op : LoggedOp) : Nat :=
  saturatingAdd (opLadder.paddedLen op.encodedLen) 82

/-- What a page reads throughout. -/
structure PageInput where
  log : List LoggedOp
  held : Finset ChangeHash
  budget : Nat
  bounded : Bool

/-- What a page has done so far. -/
structure PageState where
  position : Nat
  scanned : Nat
  used : Nat
  /-- Operations to send, with their positions. -/
  sent : List (Nat × LoggedOp)

/-- The first range that ends beyond the position, with the ranges after it. -/
def remainingRanges (ranges : List LogRange) (position : Nat) : List LogRange :=
  ranges.dropWhile fun range => range.stop ≤ position

/-- The range that certifies the position, if the next one does. -/
def certified (ranges : List LogRange) (position : Nat) : Option LogRange :=
  (remainingRanges ranges position).head?.filter fun range => range.start ≤ position

variable {ranges : List LogRange} {doc : CatchupDoc} {heads : List ChangeHash} {position : Nat}
  {input : PageInput}

theorem has_certified {range : LogRange} (h : certified ranges position = some range) :
    range ∈ ranges ∧ range.Has position := by
  rcases Option.filter_eq_some_iff.mp h with ⟨hhead, hstart⟩
  have hmem : range ∈ remainingRanges ranges position := List.mem_of_head? hhead
  refine ⟨List.dropWhile_subset _ hmem, of_decide_eq_true hstart, ?_⟩
  have hdrop := List.head?_dropWhile_not (fun range : LogRange => decide (range.stop ≤ position))
    ranges
  rw [remainingRanges] at hhead
  rw [hhead] at hdrop
  simpa using hdrop

/-- The operation at the position is beyond the byte budget of the page. -/
def OverBudget (input : PageInput) (state : PageState) (op : LoggedOp) : Prop :=
  state.sent ≠ [] ∧ saturatingAdd state.used (sealedBytes op) > input.budget

instance (input : PageInput) (state : PageState) (op : LoggedOp) :
    Decidable (OverBudget input state op) :=
  inferInstanceAs (Decidable (_ ∧ _))

/-- Scan the log from the page's position on. -/
def pageLoop (input : PageInput) (ranges : List LogRange) (state : PageState) : PageState :=
  match _hop : input.log[state.position]? with
  | none => state
  | some op =>
    match _hrange : certified ranges state.position with
    | some range =>
      -- A certified interval is a local dependency fact: no operation body is inspected.
      pageLoop input (remainingRanges ranges state.position)
        { state with position := range.stop }
    | none =>
      if input.bounded = true ∧ state.scanned ≥ maxCatchupPageScannedOps then state
      else if Known input.held op then
        pageLoop input (remainingRanges ranges state.position)
          { state with position := state.position + 1, scanned := state.scanned + 1 }
      else if OverBudget input state op then
        { state with scanned := state.scanned + 1 }
      else
        pageLoop input (remainingRanges ranges state.position)
          { position := state.position + 1
            scanned := state.scanned + 1
            used := saturatingAdd state.used (sealedBytes op)
            sent := state.sent ++ [(state.position, op)] }
termination_by input.log.length - state.position
decreasing_by
  all_goals
    have hlt := (List.getElem?_eq_some_iff.mp _hop).1
  · have hhas := (has_certified _hrange).2
    simp only [LogRange.Has] at hhas
    omega
  · omega
  · omega

/-- The page that starts at a position, before its operations are sealed. -/
def pageInner (doc : CatchupDoc) (heads : List ChangeHash) (start budget : Nat)
    (bounded : Bool) : PageState :=
  let (held, ranges) := if bounded then doc.heldClosureBounded heads
    else (doc.heldClosure heads, [])
  pageLoop ⟨doc.log, held, budget, bounded⟩ ranges ⟨min start doc.log.length, 0, 0, []⟩

/-- Where to resume after a page. -/
def continuation (doc : CatchupDoc) (state : PageState) : Option Nat :=
  if state.position < doc.log.length then some state.position else none

section Export

variable {ε σ : Type} (encrypt : LoggedOp → Except ε σ)

/-- Seal the operations of a page in order. Sealing decides nothing about the page, so the
scan is run first. -/
def exportPageInner (doc : CatchupDoc) (heads : List ChangeHash) (start budget : Nat)
    (bounded : Bool) : Except ε (List σ × Option Nat) := do
  let state := doc.pageInner heads start budget bounded
  let out ← state.sent.mapM fun entry => encrypt entry.2
  pure (out, doc.continuation state)

/-- A resumable and bounded page. -/
def exportCatchupPage (doc : CatchupDoc) (heads : List ChangeHash) (start budget : Nat) :
    Except ε (List σ × Option Nat) :=
  doc.exportPageInner encrypt heads start budget true

end Export

/-! ## The index of a reachable document -/

/-- The position carries a change at or behind the given one. -/
def Held (doc : CatchupDoc) (hash : ChangeHash) (position : Nat) : Prop :=
  ∃ op change, doc.log[position]? = some op ∧ op.carried = some change ∧
    doc.graph.Behind hash change

theorem Held.loaded {graph : DepGraph ChangeHash} (hextends : doc.graph.Extends graph)
    {hash : ChangeHash} (h : doc.Held hash position) :
    Held { doc with graph := graph } hash position := by
  rcases h with ⟨op, change, hop, hcarried, hbehind⟩
  exact ⟨op, change, hop, hcarried, hbehind.mono hextends⟩

theorem Held.appended (op : LoggedOp) {hash : ChangeHash} (h : doc.Held hash position) :
    (doc.appended op).Held hash position := by
  rcases h with ⟨held, change, hop, hcarried, hbehind⟩
  refine ⟨held, change, ?_, hcarried, hbehind⟩
  have hlt := (List.getElem?_eq_some_iff.mp hop).1
  rw [CatchupDoc.appended, List.getElem?_append_left hlt]
  exact hop

/-- The index of the document certifies only positions behind its changes. -/
def Certified (doc : CatchupDoc) : Prop := doc.index.Sound doc.Held

theorem Certified.appended (h : doc.Certified) (op : LoggedOp) :
    (doc.appended op).Certified := by
  have hold : doc.index.Sound (doc.appended op).Held :=
    h.mono fun _ _ hheld => hheld.appended op
  change (indexCatchupOp doc.index doc.graph doc.log.length op).Sound (doc.appended op).Held
  unfold indexCatchupOp
  split
  · exact hold
  · split
    · exact hold
    · rename_i hash hcarried
      split <;> rename_i havailable
      · refine AncestryIndex.record_sound hold ?_ ?_
        · refine ⟨op, hash, ?_, hcarried, .refl havailable⟩
          simp [CatchupDoc.appended]
        · rintro dependency hdep position ⟨held, change, hop, hheld, hbehind⟩
          exact ⟨held, change, hop, hheld, .step havailable hdep hbehind⟩
      · exact hold

theorem Certified.grows {next : CatchupDoc} (h : doc.Certified) (hgrows : Grows doc next) :
    next.Certified := by
  cases hgrows with
  | loaded hextends => exact AncestryIndex.Sound.mono h fun _ _ hheld => hheld.loaded hextends
  | recorded op =>
    unfold record
    split
    · exact h
    · exact h.appended op

theorem certified_restore (graph : DepGraph ChangeHash) (ops : List LoggedOp) :
    (restore graph ops).Certified := by
  have hfold (doc : CatchupDoc) (h : doc.Certified) : (ops.foldl appended doc).Certified := by
    induction ops generalizing doc with
    | nil => exact h
    | cons op ops ih => exact ih _ (h.appended op)
  exact hfold _ (AncestryIndex.sound_empty _)

/-- Every reachable document certifies only positions behind its changes. -/
theorem Reachable.certified (h : doc.Reachable) : doc.Certified := by
  rcases h with ⟨graph, ops, hgrows⟩
  induction hgrows with
  | refl => exact certified_restore graph ops
  | tail _ hstep ih => exact ih.grows hstep

/-! ## The bounded walk -/

/-- What is behind the hash is behind one of the heads. -/
def Under (graph : DepGraph ChangeHash) (heads : List ChangeHash) (hash : ChangeHash) : Prop :=
  ∀ node, graph.Behind hash node → ∃ head ∈ heads, graph.Behind head node

/-- A range of the collection was copied from the certificate of a visited change. -/
def Copied (doc : CatchupDoc) (visited : Finset ChangeHash) (ranges : List LogRange) : Prop :=
  ∀ range ∈ ranges, ∃ hash ∈ visited, ∃ certificate,
    doc.index.get hash = some certificate ∧ range ∈ certificate.ranges

/-- What the bounded walk keeps. -/
structure WalkInv (doc : CatchupDoc) (heads stack : List ChangeHash)
    (visited : Finset ChangeHash) (ranges : List LogRange) : Prop where
  pending : ∀ hash ∈ stack, Under doc.graph heads hash
  found : ∀ hash ∈ visited, hash ∈ doc.graph.available ∧ Under doc.graph heads hash
  copied : doc.Copied visited ranges

/-- Visiting the top of the stack keeps the walk's invariant. -/
theorem WalkInv.visit {rest pushed : List ChangeHash} {hash : ChangeHash}
    {visited : Finset ChangeHash} {count : Nat}
    (h : doc.WalkInv heads (hash :: rest) visited ranges) (havailable : hash ∈ doc.graph.available)
    (hpushed : ∀ other ∈ pushed, other ∈ doc.graph.deps hash ∨ other ∈ rest) :
    doc.WalkInv heads pushed (insert hash visited)
      (ranges ++ (((doc.index.get hash).map Certificate.ranges).getD []).take count) where
  pending := by
    intro other hmem
    rcases hpushed other hmem with hdep | hrest
    · exact fun node hbehind => h.pending hash List.mem_cons_self node
        (.step havailable hdep hbehind)
    · exact h.pending other (List.mem_cons_of_mem _ hrest)
  found := by
    intro other hmem
    rcases Finset.mem_insert.mp hmem with rfl | hvisited
    · exact ⟨havailable, h.pending other List.mem_cons_self⟩
    · exact h.found other hvisited
  copied := by
    intro range hmem
    rcases List.mem_append.mp hmem with hold | hcopied
    · rcases h.copied range hold with ⟨other, hvisited, hfound⟩
      exact ⟨other, Finset.mem_insert_of_mem hvisited, hfound⟩
    · refine ⟨hash, Finset.mem_insert_self _ _, ?_⟩
      cases hget : doc.index.get hash with
      | none =>
        rw [hget] at hcopied
        simp at hcopied
      | some certificate =>
        rw [hget] at hcopied
        exact ⟨certificate, rfl, List.mem_of_mem_take hcopied⟩

/-- The bounded walk keeps its invariant until it runs out of stack or of steps. -/
theorem walkBounded_inv (remaining : Nat) (stack : List ChangeHash) (visited : Finset ChangeHash)
    (ranges : List LogRange) (h : doc.WalkInv heads stack visited ranges) :
    ∃ left, doc.WalkInv heads left (doc.walkBounded remaining stack visited ranges).1
      (doc.walkBounded remaining stack visited ranges).2 := by
  induction remaining, stack, visited, ranges using walkBounded.induct doc with
  | case1 stack visited ranges =>
    rw [walkBounded]
    exact ⟨stack, h⟩
  | case2 visited ranges remaining =>
    rw [walkBounded]
    exact ⟨[], h⟩
  | case3 visited ranges remaining hash rest hskip ih =>
    rw [walkBounded, if_pos hskip]
    exact ih ⟨fun other hmem => h.pending other (List.mem_cons_of_mem _ hmem), h.found,
      h.copied⟩
  | case4 visited ranges remaining hash rest hskip certified copied left hcomplete ih =>
    rw [walkBounded, if_neg hskip]
    simp only [not_or, not_not] at hskip
    rw [if_pos hcomplete]
    exact ih (h.visit hskip.2 fun other hmem => .inr hmem)
  | case5 visited ranges remaining hash rest hskip certified copied left hpartial deps take ih =>
    rw [walkBounded, if_neg hskip]
    simp only [not_or, not_not] at hskip
    rw [if_neg hpartial]
    refine ih (h.visit hskip.2 fun other hmem => ?_)
    rcases List.mem_append.mp hmem with hdep | hrest
    · exact .inl (List.mem_of_mem_take (List.mem_reverse.mp hdep))
    · exact .inr hrest

/-- What the bounded walk finds is behind a named head, and so is every position it
certifies. -/
theorem heldClosureBounded_behind (hcertified : doc.Certified) (heads : List ChangeHash) :
    (∀ hash ∈ (doc.heldClosureBounded heads).1, ∃ head ∈ heads, doc.graph.Behind head hash) ∧
      ∀ position, Covers (doc.heldClosureBounded heads).2 position →
        ∃ head ∈ heads, doc.Held head position := by
  have hstart : doc.WalkInv heads (heads.take maxCatchupPageClosureSteps).reverse ∅ [] := by
    refine ⟨?_, fun hash hmem => absurd hmem (Finset.notMem_empty hash), ?_⟩
    · intro hash hmem node hbehind
      exact ⟨hash, List.mem_of_mem_take (List.mem_reverse.mp hmem), hbehind⟩
    · exact fun range hmem => absurd hmem List.not_mem_nil
  rcases walkBounded_inv maxCatchupPageClosureSteps _ _ _ hstart with ⟨left, hinv⟩
  refine ⟨?_, ?_⟩
  · intro hash hmem
    rcases hinv.found hash hmem with ⟨havailable, hunder⟩
    exact hunder hash (.refl havailable)
  · intro position hcovers
    rcases covers_mergeRanges hcovers with ⟨range, hmem, hhas⟩
    rcases hinv.copied range hmem with ⟨hash, hvisited, certificate, hget, hrange⟩
    rcases hcertified hash certificate hget position ⟨range, hrange, hhas⟩ with
      ⟨op, change, hop, hcarried, hbehind⟩
    rcases (hinv.found hash hvisited).2 change hbehind with ⟨head, hhead, hheadBehind⟩
    exact ⟨head, hhead, op, change, hop, hcarried, hheadBehind⟩

/-! ## One page -/

/-- What a scan from one state to another did. -/
structure Scanned (input : PageInput) (ranges : List LogRange) (before after : PageState) :
    Prop where
  forward : before.position ≤ after.position
  sent : ∀ entry ∈ before.sent, entry ∈ after.sent
  accounted : ∀ position op, before.position ≤ position → position < after.position →
    input.log[position]? = some op →
    (position, op) ∈ after.sent ∨ Known input.held op ∨ Covers ranges position
  logged : ∀ entry ∈ after.sent, entry ∈ before.sent ∨ input.log[entry.1]? = some entry.2
  advances : after.position < input.log.length → before.position < after.position ∨
    before.sent ≠ [] ∨ (input.bounded = true ∧ before.scanned ≥ maxCatchupPageScannedOps)

theorem remainingRanges_subset :
    ∀ range ∈ remainingRanges ranges position, range ∈ ranges :=
  fun _ hmem => List.dropWhile_subset _ hmem

/-- A scan that first moves to a later position and then goes on. -/
theorem Scanned.after {before middle after : PageState}
    (h : Scanned input (remainingRanges ranges before.position) middle after)
    (hforward : before.position < middle.position)
    (hsent : ∀ entry ∈ before.sent, entry ∈ middle.sent)
    (haccounted : ∀ position op, before.position ≤ position → position < middle.position →
      input.log[position]? = some op →
      (position, op) ∈ middle.sent ∨ Known input.held op ∨ Covers ranges position)
    (hlogged : ∀ entry ∈ middle.sent, entry ∈ before.sent ∨ input.log[entry.1]? = some entry.2) :
    Scanned input ranges before after where
  forward := hforward.le.trans h.forward
  sent := fun entry hmem => h.sent entry (hsent entry hmem)
  accounted := by
    intro position op hfrom hto hop
    by_cases hmiddle : position < middle.position
    · rcases haccounted position op hfrom hmiddle hop with hmem | hknown
      · exact .inl (h.sent _ hmem)
      · exact .inr hknown
    · rcases h.accounted position op (Nat.not_lt.mp hmiddle) hto hop with hmem | hknown | hcovers
      · exact .inl hmem
      · exact .inr (.inl hknown)
      · exact .inr (.inr (hcovers.mono remainingRanges_subset))
  logged := by
    intro entry hmem
    rcases h.logged entry hmem with hmiddle | hlog
    · exact hlogged entry hmiddle
    · exact .inr hlog
  advances := fun _ => .inl (hforward.trans_le h.forward)

/-- A scan that stops where it is. -/
theorem Scanned.stop {before after : PageState} (hposition : after.position = before.position)
    (hsent : after.sent = before.sent)
    (hblocked : after.position < input.log.length →
      before.sent ≠ [] ∨ (input.bounded = true ∧ before.scanned ≥ maxCatchupPageScannedOps)) :
    Scanned input ranges before after where
  forward := hposition.ge
  sent := fun entry hmem => by rwa [hsent]
  accounted := fun position op hfrom hto => by omega
  logged := fun entry hmem => .inl (by rwa [← hsent])
  advances := fun hlt => .inr (hblocked hlt)

variable {state : PageState} {op : LoggedOp} {budget start : Nat}

theorem pageLoop_end (ranges : List LogRange)
    (hop : input.log[state.position]? = none) : pageLoop input ranges state = state := by
  rw [pageLoop]
  split <;> rename_i hsome
  · rfl
  · rw [hop] at hsome
    cases hsome

theorem pageLoop_jump {range : LogRange} (hop : input.log[state.position]? = some op)
    (hrange : certified ranges state.position = some range) :
    pageLoop input ranges state = pageLoop input (remainingRanges ranges state.position)
      { state with position := range.stop } := by
  rw [pageLoop]
  split <;> rename_i hsome
  · rw [hop] at hsome
    cases hsome
  · split <;> rename_i hfound
    · rw [hrange] at hfound
      cases hfound
      rfl
    · rw [hrange] at hfound
      cases hfound

/-- The scan of one operation that no range certifies. -/
def scanOne (input : PageInput) (ranges : List LogRange) (state : PageState) (op : LoggedOp) :
    PageState :=
  if input.bounded = true ∧ state.scanned ≥ maxCatchupPageScannedOps then state
  else if Known input.held op then
    pageLoop input (remainingRanges ranges state.position)
      { state with position := state.position + 1, scanned := state.scanned + 1 }
  else if OverBudget input state op then { state with scanned := state.scanned + 1 }
  else
    pageLoop input (remainingRanges ranges state.position)
      { position := state.position + 1
        scanned := state.scanned + 1
        used := saturatingAdd state.used (sealedBytes op)
        sent := state.sent ++ [(state.position, op)] }

theorem pageLoop_scan
    (hop : input.log[state.position]? = some op) (hrange : certified ranges state.position = none) :
    pageLoop input ranges state = scanOne input ranges state op := by
  rw [pageLoop]
  split <;> rename_i hsome
  · rw [hop] at hsome
    cases hsome
  · rw [hop] at hsome
    cases hsome
    split <;> rename_i hfound
    · rw [hrange] at hfound
      cases hfound
    · rfl

/-- The whole scan of a page. -/
theorem pageLoop_scanned (input : PageInput) (ranges : List LogRange) (state : PageState) :
    Scanned input ranges state (pageLoop input ranges state) := by
  induction ranges, state using pageLoop.induct input with
  | case1 ranges state hop =>
    rw [pageLoop_end ranges hop]
    refine .stop rfl rfl fun hlt => ?_
    rw [List.getElem?_eq_none_iff] at hop
    omega
  | case2 ranges state op hop range hrange ih =>
    rw [pageLoop_jump hop hrange]
    rcases has_certified hrange with ⟨hmem, hhas⟩
    refine ih.after hhas.2 (fun _ hsent => hsent) ?_ (fun _ hsent => .inl hsent)
    -- Every position the jump passes lies in the certified range.
    intro position _ hfrom hto _
    exact .inr (.inr ⟨range, hmem, hhas.1.trans hfrom, hto⟩)
  | case3 ranges state op hop hrange hfull =>
    rw [pageLoop_scan hop hrange, scanOne, if_pos hfull]
    exact .stop rfl rfl fun _ => .inr hfull
  | case4 ranges state op hop hrange hfull hknown ih =>
    rw [pageLoop_scan hop hrange, scanOne, if_neg hfull, if_pos hknown]
    refine ih.after (Nat.lt_succ_self _) (fun _ hsent => hsent) ?_ (fun _ hsent => .inl hsent)
    intro position found hfrom hto hfound
    have heq : position = state.position := Nat.le_antisymm (Nat.lt_succ_iff.mp hto) hfrom
    rw [heq, hop] at hfound
    cases hfound
    exact .inr (.inl hknown)
  | case5 ranges state op hop hrange hfull hknown hover =>
    rw [pageLoop_scan hop hrange, scanOne, if_neg hfull, if_neg hknown, if_pos hover]
    exact .stop rfl rfl fun _ => .inl hover.1
  | case6 ranges state op hop hrange hfull hknown hover ih =>
    rw [pageLoop_scan hop hrange, scanOne, if_neg hfull, if_neg hknown, if_neg hover]
    refine ih.after (Nat.lt_succ_self _) (fun _ hsent => List.mem_append_left _ hsent) ?_ ?_
    · intro position found hfrom hto hfound
      have heq : position = state.position := Nat.le_antisymm (Nat.lt_succ_iff.mp hto) hfrom
      rw [heq, hop] at hfound
      cases hfound
      rw [heq]
      exact .inl (List.mem_append_right _ List.mem_cons_self)
    · intro entry hmem
      rcases List.mem_append.mp hmem with hsent | hnew
      · exact .inl hsent
      · rw [List.mem_singleton] at hnew
        rw [hnew]
        exact .inr hop

/-! ## What a page does -/

variable {ε σ : Type} {encrypt : LoggedOp → Except ε σ}

/-- The positions and operations a page sends. -/
def sentBy (doc : CatchupDoc) (heads : List ChangeHash) (start budget : Nat) :
    List (Nat × LoggedOp) :=
  (doc.pageInner heads start budget true).sent

theorem exportCatchupPage_eq_ok {out : List σ} {next : Option Nat}
    (h : doc.exportCatchupPage encrypt heads start budget = .ok (out, next)) :
    ((doc.sentBy heads start budget).mapM fun entry => encrypt entry.2) = .ok out ∧
      next = doc.continuation (doc.pageInner heads start budget true) := by
  rcases bind_eq_ok.mp h with ⟨sealed, hsealed, hout⟩
  cases hout
  exact ⟨hsealed, rfl⟩

theorem exportCatchupPage_of_mapM {out : List σ}
    (h : ((doc.sentBy heads start budget).mapM fun entry => encrypt entry.2) = .ok out) :
    doc.exportCatchupPage encrypt heads start budget
      = .ok (out, doc.continuation (doc.pageInner heads start budget true)) := by
  simp only [exportCatchupPage, exportPageInner]
  rw [sentBy] at h
  rw [h]
  rfl

/-- A page sends only what the log holds at its position. -/
theorem page_logged {entry : Nat × LoggedOp} (h : entry ∈ doc.sentBy heads start budget) :
    doc.log[entry.1]? = some entry.2 := by
  have hscan := pageLoop_scanned ⟨doc.log, (doc.heldClosureBounded heads).1, budget, true⟩
    (doc.heldClosureBounded heads).2 ⟨min start doc.log.length, 0, 0, []⟩
  rcases hscan.logged entry h with hbefore | hlog
  · simp at hbefore
  · exact hlog

/-- The operation carries a change at or behind one of the heads. -/
def BehindHeads (graph : DepGraph ChangeHash) (heads : List ChangeHash) (op : LoggedOp) : Prop :=
  ∃ head ∈ heads, ∃ change, op.carried = some change ∧ graph.Behind head change

/-- Up to its continuation, or to the end of the log, a page sends a position or the position
carries a change behind a named head. -/
theorem page_skips (hreachable : doc.Reachable) (heads : List ChangeHash) (start budget : Nat)
    (hstart : start ≤ position)
    (hstop : position < (doc.pageInner heads start budget true).position)
    (hop : doc.log[position]? = some op) :
    (position, op) ∈ doc.sentBy heads start budget ∨ BehindHeads doc.graph heads op := by
  rcases heldClosureBounded_behind hreachable.certified heads with ⟨hheld, hranges⟩
  have hscan := pageLoop_scanned ⟨doc.log, (doc.heldClosureBounded heads).1, budget, true⟩
    (doc.heldClosureBounded heads).2 ⟨min start doc.log.length, 0, 0, []⟩
  rcases hscan.accounted position op (Nat.min_le_left _ _ |>.trans hstart) hstop hop with
    hsent | ⟨change, hcarried, hmem⟩ | hcovers
  · exact .inl hsent
  · rcases hheld change hmem with ⟨head, hhead, hbehind⟩
    exact .inr ⟨head, hhead, change, hcarried, hbehind⟩
  · rcases hranges position hcovers with ⟨head, hhead, found, change, hfound, hcarried, hbehind⟩
    rw [hop] at hfound
    cases hfound
    exact .inr ⟨head, hhead, change, hcarried, hbehind⟩

/-- A continuation is beyond the page's start and inside the log. -/
theorem page_advances {next : Nat}
    (h : doc.continuation (doc.pageInner heads start budget true) = some next) :
    start < next ∧ next < doc.log.length ∧
      next = (doc.pageInner heads start budget true).position := by
  unfold continuation at h
  split at h <;> rename_i hlt
  · cases h
    refine ⟨?_, hlt, rfl⟩
    have hscan := pageLoop_scanned ⟨doc.log, (doc.heldClosureBounded heads).1, budget, true⟩
      (doc.heldClosureBounded heads).2 ⟨min start doc.log.length, 0, 0, []⟩
    rcases hscan.advances hlt with hbeyond | hsent | ⟨-, hfull⟩
    · have hbeyond' : min start doc.log.length
          < (doc.pageInner heads start budget true).position := hbeyond
      omega
    · exact absurd rfl hsent
    · simp [maxCatchupPageScannedOps] at hfull
  · cases h

end CatchupDoc

end Mewtual
