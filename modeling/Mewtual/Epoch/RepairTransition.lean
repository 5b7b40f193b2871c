import Mewtual.Epoch.RepairBinding
import Mewtual.Epoch.Restart

/-!
# Applying a signed repair to a source

A repair is planned on a stamped copy of the source and committed under the gate's lock if
the source still carries the stamp. A repair of the source's own fault moves the lifecycle; a
repair of another pair either redirects a source that stands on the losing branch or is only
recorded for screening.

Main results:

- Theorem {lit}`RepairSource.plan_result`: the complete case analysis of a plan.
- Theorem {lit}`RepairSource.commit_spec`: a commit refuses without a change or installs the
  planned candidate on exactly the stamped source.
- Theorem {lit}`RepairSource.apply_spec`: the same for the whole application.
-/

namespace Mewtual

/-- Exact private plan stamp, accepted and quarantined work included. -/
structure RepairStateStamp where
  gate : EpochGateInner
  book : Bytes
  adopting : Bool
  binding : Option RepairBinding
  opening : Option Receipt

/-- The planned state of a source. -/
structure RepairCandidate where
  expected : RepairStateStamp
  book : ReceiptBook
  gate : EpochGateInner
  adopting : Bool
  binding : RepairBinding

inductive RepairPlan where
  | candidate (candidate : RepairCandidate)
  | unchanged (outcome : SourceRepairOutcome)

/-- The parts of a typed source that a repair reads and changes. -/
structure RepairSource where
  document : LogicalDocument
  gate : EpochGate
  book : ReceiptBook
  opening : Option Receipt
  adopting : Bool
  binding : Option RepairBinding

namespace RepairCandidate

@[simps] def setHead (candidate : RepairCandidate) (receipt : Option Receipt) :
    RepairCandidate :=
  { candidate with
    book := { candidate.book with
      tenure := receipt.map Receipt.selection
      latest := receipt
      previousUntilInstalled := none } }

/-- The candidate whose gate is moved to the given lifecycle state. -/
@[simps] def moved (candidate : RepairCandidate) (phase : EpochPhase)
    (receiptHash : Option Hash32) (adopting : Bool) : RepairCandidate :=
  { candidate with gate := candidate.gate.moved phase receiptHash, adopting := adopting }

/-- Seal the whole source for adopting the selected checkpoint. -/
def adopt [Crypto] (candidate : RepairCandidate) (selected : Receipt) : RepairCandidate :=
  (candidate.setHead (some selected)).moved .closing (some selected.hash) true

/-- The candidate labelled with what the application did. -/
@[simps] def labelled (candidate : RepairCandidate) (disposition : RepairDisposition) :
    RepairCandidate :=
  { candidate with binding := { candidate.binding with disposition := disposition } }

/-- Only a repair that reopens the gate clears the rejected quarantine. -/
@[simps] def cleared (candidate : RepairCandidate) : RepairCandidate :=
  { candidate with
    gate := if candidate.gate.phase = .opened ∧ candidate.binding.disposition ≠ .screened then
      { candidate.gate with quarantine := [] } else candidate.gate }

end RepairCandidate

namespace RepairSource

/-! ## Planning -/

def bookBytes (source : RepairSource) : Except ReplError Bytes :=
  source.book.encodeMode source.adopting

/-- The source as a plan remembers it. -/
def stamp (source : RepairSource) : Except ReplError RepairStateStamp := do
  let book ← source.bookBytes
  pure ⟨source.gate.inner, book, source.adopting, source.binding, source.opening⟩

/-- The repair answers the fault this source is blocked on. -/
def SameFault (source : RepairSource) (a b : Receipt) : Prop :=
  source.book.fault = some (a, b) ∨ source.book.fault = some (b, a)

instance (source : RepairSource) (a b : Receipt) : Decidable (source.SameFault a b) :=
  inferInstanceAs (Decidable (_ ∨ _))

/-- The head that seals this epoch on the selected branch, if the source has one. -/
def qualified [Crypto] (source : RepairSource) (resolved : ResolvedRepair) : Option Receipt :=
  source.book.latest.filter fun head =>
    decide (head.closedEpoch = source.gate.epoch ∧ head.selection = resolved.selected.selection
      ∧ ¬ resolved.Covers head)

/-- The lifecycle a repair of the source's own fault selects; none where the source's shape
is not supported. -/
def planFault [Crypto] (source : RepairSource) (resolved : ResolvedRepair) (sameTenure : Bool)
    (candidate : RepairCandidate) : Option RepairCandidate :=
  let candidate := candidate.labelled .transitioned
  if sameTenure = false then
    -- Old-tenure choices are screening history, never a new checkpoint install.
    some ((candidate.setHead source.opening).moved .opened none false)
  else if source.opening = some resolved.selected then
    match source.qualified resolved with
    | some head =>
      some ((candidate.setHead (some head)).moved .closing (some head.hash) false)
    | none => some ((candidate.setHead source.opening).moved .opened none false)
  else if ∃ opening ∈ source.opening, resolved.Covers opening then
    some (candidate.adopt resolved.selected)
  else if resolved.selected.closedEpoch = source.gate.epoch then
    some ((candidate.setHead (some resolved.selected)).moved .closing
      (some resolved.selected.hash) source.adopting)
  else if source.adopting then some (candidate.adopt resolved.selected)
  else none

/-- A receipt the source stands on is covered by the repair. -/
def StandsOnLoser [Crypto] (source : RepairSource) (resolved : ResolvedRepair) : Prop :=
  (∃ latest ∈ source.book.latest, resolved.Covers latest) ∨
    (∃ opening ∈ source.opening, resolved.Covers opening) ∨
    ∃ previous ∈ source.book.previousUntilInstalled, resolved.Covers previous

instance [Crypto] (source : RepairSource) (resolved : ResolvedRepair) :
    Decidable (source.StandsOnLoser resolved) :=
  inferInstanceAs (Decidable (_ ∨ _))

/-- The candidate that records the repair of another pair. -/
def recorded (source : RepairSource) (resolved : ResolvedRepair)
    (candidate : RepairCandidate) : RepairCandidate :=
  { candidate with
    book := { candidate.book with
      document := some source.document
      repairSequence := resolved.repair.repairSequence
      resolvedRepair := some resolved } }

/-- A repair of another pair redirects a healthy source that stands on the losing branch. -/
def planOther [Crypto] (source : RepairSource) (resolved : ResolvedRepair) (sameTenure : Bool)
    (candidate : RepairCandidate) : RepairCandidate :=
  let candidate := source.recorded resolved candidate
  if source.book.fault = none ∧ sameTenure = true ∧ source.StandsOnLoser resolved then
    (candidate.labelled .retargeted).adopt resolved.selected
  else candidate

/-- Run the persisted-state validators on a candidate before it may be committed. -/
def checkCandidate [Crypto] (source : RepairSource) (candidate : RepairCandidate) :
    Except ReplError RepairPlan := do
  let nextGate := source.gate.withInner candidate.gate
  let encoded ← candidate.book.encodeMode candidate.adopting
  discard (ReceiptBook.decodeMode encoded candidate.adopting)
  match nextGate.verifyRestartMode candidate.gate.accepted candidate.book source.opening
      candidate.adopting with
  | .error _ => pure (.unchanged (.held .unsupportedShape))
  | .ok () =>
    candidate.binding.validate candidate.book nextGate source.opening candidate.adopting
    pure (.candidate candidate)

/-- The repair the source already holds. -/
def planAgain [Crypto] (source : RepairSource) : Except ReplError RepairPlan :=
  match source.binding with
  | none => .ok (.unchanged (.held .unsupportedShape))
  | some binding => do
    binding.validate source.book source.gate source.opening source.adopting
    pure (.unchanged (.alreadyResolved binding.disposition))

/-- A repair the source does not hold yet. -/
def planNew [Crypto] (source : RepairSource) (repair : ReceiptRepair) (a b : Receipt)
    (group : OwnerAuthority) (issuerTenure : UInt64) : Except ReplError RepairPlan := do
  let resolved := ResolvedRepair.between repair a b
  let sameTenure := (resolved.selected.verifyCurrentOwner group issuerTenure).toBool
  if decide (source.gate.inner.phase = .fault) ≠ source.book.isFaulted then throw .malformed
  let expected ← source.stamp
  let candidate : RepairCandidate :=
    ⟨expected, source.book, source.gate.inner, source.adopting, ⟨.screened, repair.hash⟩⟩
  if source.SameFault a b then
    let (result, book) := source.book.applyRepair repair group issuerTenure
    discard result
    match source.planFault resolved sameTenure { candidate with book := book } with
    | none => pure (.unchanged (.held .unsupportedShape))
    | some candidate => source.checkCandidate candidate.cleared
  else source.checkCandidate (source.planOther resolved sameTenure candidate).cleared

/-- The repair waits for its selected checkpoint. -/
def InProgress [Crypto] (source : RepairSource) : Prop :=
  ∃ binding ∈ source.binding,
    ∃ state ∈ binding.state source.book source.gate.inner.phase source.opening source.adopting,
      state.installPending = true

instance [Crypto] (source : RepairSource) : Decidable source.InProgress :=
  inferInstanceAs (Decidable (∃ binding ∈ source.binding, _))

/-- Plan the transition of a source under a repair. -/
def plan [Crypto] (source : RepairSource) (repair : ReceiptRepair) (a b : Receipt)
    (group : OwnerAuthority) (issuerTenure : UInt64) : Except ReplError RepairPlan := do
  repair.verifyCurrentOwner group issuerTenure
  repair.checkEvidence a b
  if repair.document ≠ source.document ∨ source.gate.document ≠ source.document then
    throw .epochScope
  if source.gate.inner.phase = .settled then pure (.unchanged (.held .settled))
  else if source.book.resolvedRepair.map (·.repair) = some repair then source.planAgain
  else if repair.repairSequence ≤ source.book.repairSequenceForIssuerTenure issuerTenure then
    pure (.unchanged (.held .sequenceNotNewer))
  else if source.InProgress then pure (.unchanged (.held .repairInProgress))
  else source.planNew repair a b group issuerTenure

/-! ## Committing -/

/-- The source with a candidate's book, adopting flag and binding. -/
@[simps] def installed (source : RepairSource) (candidate : RepairCandidate) : RepairSource :=
  { source with
    book := candidate.book
    adopting := candidate.adopting
    binding := some candidate.binding }

/-- The source still carries the stamp, the gate apart. -/
def Stamped (source : RepairSource) (stamp : RepairStateStamp) (book : Bytes) : Prop :=
  book = stamp.book ∧ source.adopting = stamp.adopting ∧ source.binding = stamp.binding
    ∧ source.opening = stamp.opening

instance (source : RepairSource) (stamp : RepairStateStamp) (book : Bytes) :
    Decidable (source.Stamped stamp book) :=
  inferInstanceAs (Decidable (_ ∧ _))

/-- Install a candidate if the source is still the one it was planned for. -/
def commit (source : RepairSource) (candidate : RepairCandidate) :
    Except ReplError SourceRepairOutcome × RepairSource :=
  match source.bookBytes with
  | .error error => (.error error, source)
  | .ok book =>
    if ¬ source.Stamped candidate.expected book then (.error .receiptConflict, source)
    else
      let (result, gate, next) := source.gate.commitRepair candidate.expected.gate
        candidate.gate candidate.binding.disposition (fun source => source.installed candidate)
        source
      (result.map fun _ => .applied candidate.binding.disposition, { next with gate := gate })

/-- Plan and commit in one step. -/
def apply [Crypto] (source : RepairSource) (repair : ReceiptRepair) (a b : Receipt)
    (group : OwnerAuthority) (issuerTenure : UInt64) :
    Except ReplError SourceRepairOutcome × RepairSource :=
  match source.plan repair a b group issuerTenure with
  | .error error => (.error error, source)
  | .ok (.unchanged outcome) => (.ok outcome, source)
  | .ok (.candidate candidate) => source.commit candidate

/-! ## What a plan establishes -/

/-- Bookkeeping refuses, finds the repair recorded, or records it with the two sides of the
book's fault. -/
theorem applyRepair_spec [Crypto] (book : ReceiptBook) (repair : ReceiptRepair)
    (group : OwnerAuthority) (start : UInt64) :
    (∃ error, book.applyRepair repair group start = (.error error, book)) ∨
      (∃ losing, book.fault = none ∧
        book.applyRepair repair group start = (.ok (.duplicate, losing), book)) ∨
      ∃ a b selected losing, book.fault = some (a, b) ∧ a.verifySignatureOnly = .ok () ∧
        b.verifySignatureOnly = .ok () ∧
        ReceiptBook.splitSelected repair a b = some (selected, losing) ∧
        book.applyRepair repair group start
          = (.ok (.applied, losing), book.repaired repair selected losing) := by
  unfold ReceiptBook.applyRepair
  cases hverified : repair.verifyCurrentOwner group start with
  | error error => exact .inl ⟨error, rfl⟩
  | ok value =>
    dsimp only
    split <;> rename_i hfilter
    · rename_i resolved
      have hkept : resolved.repair = repair ∧ book.fault = none := by
        simpa using (Option.filter_eq_some_iff.mp hfilter).2
      exact .inr (.inl ⟨_, hkept.2, rfl⟩)
    · split <;> rename_i hfault
      · exact .inl ⟨_, rfl⟩
      · rename_i a b
        split <;> rename_i hleft hright
        · exact .inl ⟨_, rfl⟩
        · exact .inl ⟨_, rfl⟩
        · split
          · exact .inl ⟨_, rfl⟩
          · split <;> rename_i hsplit
            · exact .inl ⟨_, rfl⟩
            · exact .inr (.inr ⟨a, b, _, _, hfault, Receipt.restored_signature hleft,
                Receipt.restored_signature hright, hsplit, rfl⟩)

variable {repair : ReceiptRepair} {a b : Receipt} {source : RepairSource}

theorem splitSelected_between [Crypto] {selected losing : Receipt}
    (hsplit : ReceiptBook.splitSelected repair a b = some (selected, losing)) :
    ResolvedRepair.between repair a b = ⟨repair, selected, losing⟩ := by
  unfold ReceiptBook.splitSelected at hsplit
  unfold ResolvedRepair.between
  split at hsplit <;> rename_i hleft
  · cases hsplit
    rw [if_pos hleft]
  · rw [if_neg hleft]
    split at hsplit
    · cases hsplit
      rfl
    · cases hsplit

/-- The order of checked evidence does not matter. -/
theorem between_comm [Crypto] {selected losing : Receipt} (hhash : a.hash ≠ b.hash)
    (hsplit : ReceiptBook.splitSelected repair b a = some (selected, losing)) :
    ResolvedRepair.between repair a b = ResolvedRepair.between repair b a := by
  unfold ReceiptBook.splitSelected at hsplit
  unfold ResolvedRepair.between
  split at hsplit <;> rename_i hright
  · rw [if_pos hright, if_neg]
    exact fun hleft => hhash (hleft.trans hright.symm)
  · split at hsplit <;> rename_i hleft
    · rw [if_pos hleft, if_neg hright]
    · cases hsplit

/-- The repair of the source's own fault is recorded with its evidence. -/
theorem SameFault.resolved [Crypto] {group : OwnerAuthority} {start : UInt64}
    {result : ReceiptRepairIngest × Receipt} (hsame : source.SameFault a b)
    (hhash : a.hash ≠ b.hash) (hok : (source.book.applyRepair repair group start).1 = .ok result) :
    (source.book.applyRepair repair group start).2.resolvedRepair
      = some (ResolvedRepair.between repair a b) := by
  rcases applyRepair_spec source.book repair group start with
    ⟨error, heq⟩ | ⟨losing, hnone, -⟩ | ⟨x, y, selected, losing, hfault, -, -, hsplit, heq⟩
  · rw [heq] at hok
    cases hok
  · rcases hsame with hsame | hsame
    · simp [hnone] at hsame
    · simp [hnone] at hsame
  · rw [heq, ReceiptBook.repaired_resolvedRepair]
    rcases hsame with hsame | hsame
    · rw [hfault, Option.some.injEq, Prod.mk.injEq] at hsame
      rcases hsame with ⟨rfl, rfl⟩
      rw [splitSelected_between hsplit]
    · rw [hfault, Option.some.injEq, Prod.mk.injEq] at hsame
      rcases hsame with ⟨rfl, rfl⟩
      rw [between_comm hhash hsplit, splitSelected_between hsplit]

/-- What the choice of a lifecycle keeps of a candidate: its stamp, recorded repair, fault and
bound hash. Every receipt role comes from the source or from the repair. -/
structure Keeps (source : RepairSource) (resolved : ResolvedRepair)
    (candidate next : RepairCandidate) : Prop where
  expected : next.expected = candidate.expected
  resolvedRepair : next.book.resolvedRepair = candidate.book.resolvedRepair
  fault : next.book.fault = candidate.book.fault
  hash : next.binding.hash = candidate.binding.hash
  latest : ∀ held ∈ next.book.latest,
    held ∈ source.opening ∨ held ∈ source.book.latest ∨ held = resolved.selected
  previous : ∀ held ∈ next.book.previousUntilInstalled,
    held ∈ source.book.previousUntilInstalled

/-- A new head with an empty predecessor keeps everything else. -/
theorem keeps_setHead {resolved : ResolvedRepair} (candidate : RepairCandidate)
    {head : Option Receipt} (hhead : ∀ held ∈ head,
      held ∈ source.opening ∨ held ∈ source.book.latest ∨ held = resolved.selected)
    (disposition : RepairDisposition) (phase : EpochPhase) (receiptHash : Option Hash32)
    (adopting : Bool) :
    source.Keeps resolved candidate
      (((candidate.labelled disposition).setHead head).moved phase receiptHash adopting) :=
  ⟨rfl, rfl, rfl, rfl, hhead, forall_mem_none⟩

theorem keeps_selected {resolved : ResolvedRepair} :
    ∀ held ∈ some resolved.selected,
      held ∈ source.opening ∨ held ∈ source.book.latest ∨ held = resolved.selected := by
  intro held hmem
  cases hmem
  exact .inr (.inr rfl)

theorem planFault_keeps [Crypto] {resolved : ResolvedRepair} {sameTenure : Bool}
    {candidate next : RepairCandidate}
    (hplan : source.planFault resolved sameTenure candidate = some next) :
    source.Keeps resolved candidate next := by
  have hopening : ∀ held ∈ source.opening,
      held ∈ source.opening ∨ held ∈ source.book.latest ∨ held = resolved.selected :=
    fun held hmem => .inl hmem
  unfold planFault at hplan
  dsimp only at hplan
  split at hplan
  · cases hplan
    exact keeps_setHead candidate hopening _ _ _ _
  · split at hplan
    · split at hplan <;> rename_i hqualified
      · cases hplan
        refine keeps_setHead candidate ?_ _ _ _ _
        intro held hmem
        cases hmem
        exact .inr (.inl (Option.filter_eq_some_iff.mp hqualified).1)
      · cases hplan
        exact keeps_setHead candidate hopening _ _ _ _
    · split at hplan
      · cases hplan
        exact keeps_setHead candidate keeps_selected _ _ _ _
      · split at hplan
        · cases hplan
          exact keeps_setHead candidate keeps_selected _ _ _ _
        · split at hplan
          · cases hplan
            exact keeps_setHead candidate keeps_selected _ _ _ _
          · cases hplan

theorem planOther_keeps [Crypto] (source : RepairSource) (resolved : ResolvedRepair)
    (sameTenure : Bool) {candidate : RepairCandidate} (hbook : candidate.book = source.book) :
    source.Keeps resolved (source.recorded resolved candidate)
      (source.planOther resolved sameTenure candidate) := by
  unfold planOther
  dsimp only
  split
  · exact keeps_setHead _ keeps_selected _ _ _ _
  · refine ⟨rfl, rfl, rfl, rfl, ?_, ?_⟩
    · intro held hmem
      rw [← hbook]
      exact .inr (.inl hmem)
    · intro held hmem
      rw [← hbook]
      exact hmem

/-- The persisted-state validators a candidate passed. -/
structure Checked [Crypto] (source : RepairSource) (candidate : RepairCandidate) : Prop where
  reread : ∃ encoded restored, candidate.book.encodeMode candidate.adopting = .ok encoded ∧
    ReceiptBook.decodeMode encoded candidate.adopting = .ok restored
  restart : (source.gate.withInner candidate.gate).verifyRestartMode candidate.gate.accepted
    candidate.book source.opening candidate.adopting = .ok ()
  binding : candidate.binding.validate candidate.book (source.gate.withInner candidate.gate)
    source.opening candidate.adopting = .ok ()

/-- What a plan says about the source it was made on. -/
structure Planned [Crypto] (source : RepairSource) (repair : ReceiptRepair) (a b : Receipt)
    (candidate : RepairCandidate) : Prop extends source.Checked candidate where
  evidence : EvidencePair repair a b
  expected : source.stamp = .ok candidate.expected
  resolved : candidate.book.resolvedRepair = some (ResolvedRepair.between repair a b)
  hash : candidate.binding.hash = repair.hash
  fault : candidate.book.fault = none ∨ candidate.book.fault = source.book.fault
  latest : ∀ held ∈ candidate.book.latest,
    held ∈ source.opening ∨ held ∈ source.book.latest ∨ held = a ∨ held = b
  previous : ∀ held ∈ candidate.book.previousUntilInstalled,
    held ∈ source.book.previousUntilInstalled

/-- Every plan: the repair is held, was resolved before, or has a candidate. -/
inductive PlanResult [Crypto] (source : RepairSource) (repair : ReceiptRepair) (a b : Receipt) :
    RepairPlan → Prop where
  | held (hold : RepairHold) : PlanResult source repair a b (.unchanged (.held hold))
  | again {binding : RepairBinding} (hbinding : source.binding = some binding)
      (hvalid : binding.validate source.book source.gate source.opening source.adopting
        = .ok ())
      (hrepair : source.book.resolvedRepair.map (·.repair) = some repair) :
      PlanResult source repair a b (.unchanged (.alreadyResolved binding.disposition))
  | candidate {candidate : RepairCandidate} (hplanned : source.Planned repair a b candidate) :
      PlanResult source repair a b (.candidate candidate)

/-- A candidate with the right records is refused, held, or planned as it is. -/
theorem checkCandidate_result [Crypto] {before candidate : RepairCandidate} {result : RepairPlan}
    (hevidence : EvidencePair repair a b) (hexpected : source.stamp = .ok before.expected)
    (hresolved : before.book.resolvedRepair = some (ResolvedRepair.between repair a b))
    (hhash : before.binding.hash = repair.hash)
    (hfault : before.book.fault = none ∨ before.book.fault = source.book.fault)
    (hkeeps : source.Keeps (ResolvedRepair.between repair a b) before candidate)
    (hok : source.checkCandidate candidate.cleared = .ok result) :
    source.PlanResult repair a b result := by
  unfold checkCandidate at hok
  rcases bind_eq_ok.mp hok with ⟨encoded, hencoded, hok⟩
  rcases bind_eq_ok.mp hok with ⟨_, hdecode, hok⟩
  split at hok <;> rename_i hrestart
  · cases hok
    exact .held _
  · rcases bind_eq_ok.mp hok with ⟨⟨⟩, hbinding, hok⟩
    cases hok
    refine .candidate ⟨⟨?_, hrestart, hbinding⟩, hevidence, ?_, ?_, ?_, ?_, ?_, hkeeps.previous⟩
    · cases hrestored : ReceiptBook.decodeMode encoded candidate.cleared.adopting with
      | error error =>
        rw [hrestored] at hdecode
        cases hdecode
      | ok restored => exact ⟨encoded, restored, hencoded, hrestored⟩
    · rw [RepairCandidate.cleared_expected, hkeeps.expected, hexpected]
    · rw [RepairCandidate.cleared_book, hkeeps.resolvedRepair, hresolved]
    · rw [RepairCandidate.cleared_binding, hkeeps.hash, hhash]
    · rw [RepairCandidate.cleared_book, hkeeps.fault]
      exact hfault
    · intro held hmem
      rcases hkeeps.latest held hmem with hopening | hlatest | rfl
      · exact .inl hopening
      · exact .inr (.inl hlatest)
      · rcases ResolvedRepair.between_cases repair a b with heq | heq
        · exact .inr (.inr (.inl (by rw [heq])))
        · exact .inr (.inr (.inr (by rw [heq])))

theorem planNew_result [Crypto] {group : OwnerAuthority} {issuerTenure : UInt64}
    {result : RepairPlan} (hevidence : EvidencePair repair a b)
    (hok : source.planNew repair a b group issuerTenure = .ok result) :
    source.PlanResult repair a b result := by
  unfold planNew at hok
  rcases guard_eq_ok.mp hok with ⟨-, hok⟩
  rcases bind_eq_ok.mp hok with ⟨expected, hexpected, hok⟩
  dsimp only at hok
  split at hok <;> rename_i hsame
  · rcases bind_eq_ok.mp hok with ⟨_, hresult, hok⟩
    rcases applyRepair_spec source.book repair group issuerTenure with
      ⟨error, heq⟩ | ⟨losing, hnone, -⟩ | ⟨x, y, selected, losing, -, -, -, -, heq⟩
    · rw [heq] at hresult
      cases hresult
    · rcases hsame with hsame | hsame
      · simp [hnone] at hsame
      · simp [hnone] at hsame
    · have happly : (source.book.applyRepair repair group issuerTenure).1
          = .ok (.applied, losing) := by
        rw [heq]
      have hresolved := hsame.resolved hevidence.conflict.2.2.1 happly
      split at hok <;> rename_i hplan
      · cases hok
        exact .held _
      · exact checkCandidate_result hevidence hexpected hresolved rfl
          (.inl (by rw [heq]; rfl)) (planFault_keeps hplan) hok
  · exact checkCandidate_result hevidence hexpected rfl rfl (.inr rfl)
      (source.planOther_keeps _ _ rfl) hok

/-- The complete case analysis of a plan. -/
theorem plan_result [Crypto] {group : OwnerAuthority} {issuerTenure : UInt64} {result : RepairPlan}
    (hok : source.plan repair a b group issuerTenure = .ok result) :
    source.PlanResult repair a b result := by
  unfold plan at hok
  rcases bind_eq_ok.mp hok with ⟨_, -, hok⟩
  rcases bind_eq_ok.mp hok with ⟨_, hevidence, hok⟩
  rcases guard_eq_ok.mp hok with ⟨-, hok⟩
  split at hok
  · cases hok
    exact .held _
  · split at hok <;> rename_i hrepair
    · unfold planAgain at hok
      split at hok <;> rename_i hbinding
      · cases hok
        exact .held _
      · rcases bind_eq_ok.mp hok with ⟨⟨⟩, hvalid, hok⟩
        cases hok
        exact .again hbinding hvalid hrepair
    · split at hok
      · cases hok
        exact .held _
      · split at hok
        · cases hok
          exact .held _
        · exact planNew_result (ReceiptRepair.checkEvidence_eq_ok hevidence) hok

/-! ## What a commit does -/

/-- A commit refuses without a change, or the source carried the whole stamp and takes the
candidate. -/
theorem commit_spec (source : RepairSource) (candidate : RepairCandidate) :
    (∃ error, source.commit candidate = (.error error, source)) ∨
      (source.stamp = .ok candidate.expected ∧
        candidate.expected.gate.phase ≠ .settled ∧
        EpochGate.RepairMove candidate.expected.gate candidate.gate ∧
        source.commit candidate = (.ok (.applied candidate.binding.disposition),
          { source.installed candidate with gate := source.gate.withInner candidate.gate })) := by
  unfold commit stamp
  cases hbook : source.bookBytes with
  | error error => exact .inl ⟨error, rfl⟩
  | ok book =>
    dsimp only
    split <;> rename_i hstamped
    · exact .inl ⟨_, rfl⟩
    · rw [not_not] at hstamped
      rcases source.gate.commitRepair_spec candidate.expected.gate candidate.gate
        candidate.binding.disposition (fun source => source.installed candidate) source with
        heq | ⟨heq, hgate, hphase, hmove⟩
      · rw [heq]
        exact .inl ⟨_, rfl⟩
      · rw [heq]
        refine .inr ⟨?_, hphase, hmove, rfl⟩
        rcases hstamped with ⟨hbytes, hadopting, hbinding, hopening⟩
        rw [ok_bind, hgate, hbytes, hadopting, hbinding, hopening]
        rfl

/-- An application reports no repair and changes nothing, or installs a candidate planned on
this source. -/
theorem apply_spec [Crypto] (source : RepairSource) (repair : ReceiptRepair) (a b : Receipt)
    (group : OwnerAuthority) (issuerTenure : UInt64) :
    (∃ result, (∀ disposition, result ≠ .ok (.applied disposition)) ∧
        source.apply repair a b group issuerTenure = (result, source)) ∨
      ∃ candidate, source.Planned repair a b candidate ∧
        source.apply repair a b group issuerTenure
          = (.ok (.applied candidate.binding.disposition),
            { source.installed candidate with gate := source.gate.withInner candidate.gate }) := by
  unfold apply
  cases hplan : source.plan repair a b group issuerTenure with
  | error error => exact .inl ⟨_, by simp, rfl⟩
  | ok planned =>
    cases plan_result hplan with
    | held | again => exact .inl ⟨_, by simp, rfl⟩
    | @candidate candidate hplanned =>
      rcases source.commit_spec candidate with ⟨error, heq⟩ | ⟨-, -, -, heq⟩
      · exact .inl ⟨_, by simp, heq⟩
      · exact .inr ⟨candidate, hplanned, heq⟩

/-- An epoch-zero source that two receipts of its owner put into fault. -/
def faultedSource : RepairSource where
  document := plainDocument
  gate := (EpochGate.new plainDocument 9 0 1).withInner ((EpochGateInner.empty 1).moved .fault none)
  book := (@ReceiptBook.ingestVerified plainCrypto (@ReceiptBook.ingestVerified plainCrypto .empty
    (plainReceipt plainDocument 1 5 0 2)).2 (plainReceipt plainDocument 1 5 0 3)).2
  opening := none
  adopting := false
  binding := none

/-- The owner's own choice of the first receipt. -/
def faultedRepair : ReceiptRepair :=
  plainRepair 1 5 (plainReceipt plainDocument 1 5 0 2) (plainReceipt plainDocument 1 5 0 3) 1

end RepairSource

end Mewtual
