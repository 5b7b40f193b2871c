import Mewtual.Epoch.OwnerJournalCodec
import Mewtual.Epoch.RepairTransition

/-!
# Joint repair of a source and the owner's journal

The source candidate and the journal candidate of one repair are computed separately and
committed together. The plan remembers the exact source and the exact journal; a commit
compares both again, and fences the gate once more while it holds the gate's lock.

Main results:

- Theorem {lit}`RepairSource.commitJoint_all_or_nothing`: a planned repair changes nothing or
  finds exactly the planned source and journal.
-/

namespace Mewtual

/-- Immutable computation for one exact source version and one exact journal candidate. -/
structure ReceiptRepairPlan where
  resolved : ResolvedRepair
  sourceVersion : Hash32
  source : RepairPlan
  expected : RepairStateStamp
  originalJournal : Bytes
  journal : OwnerReceiptJournal
  journalEffect : JournalRepairEffect

/-- Compare the actual journal before the owner record is written. -/
def ReceiptRepairPlan.matchesOriginalJournal (plan : ReceiptRepairPlan)
    (current : OwnerReceiptJournal) : Bool :=
  current.encode = plan.originalJournal

/-- The journal candidate is readable and does not stand on the losing branch. -/
def compatibleJournal [Crypto] (journal : OwnerReceiptJournal) (resolved : ResolvedRepair) :
    Except ReplError Unit := do
  discard (OwnerReceiptJournal.decode journal.encode)
  if ∃ choice ∈ journal.effectiveChoice, resolved.Covers choice then throw .receiptConflict

/-- The gate's lifecycle fits the head it is sealed by. -/
def LifecycleFits [Crypto] (book : ReceiptBook) (gate : EpochGateInner) (adopting : Bool) :
    Prop :=
  (gate.phase = .opened ∧ gate.receiptHash = none ∧ adopting = false) ∨
    (gate.phase = .closing ∧ gate.receiptHash ≠ none ∧
      gate.receiptHash = book.latest.map Receipt.hash) ∨
    gate.phase = .fault

instance [Crypto] (book : ReceiptBook) (gate : EpochGateInner) (adopting : Bool) :
    Decidable (LifecycleFits book gate adopting) :=
  inferInstanceAs (Decidable (_ ∨ _))

/-- A losing role is still retained, and no repair adoption fences it. -/
def LosingUnfenced [Crypto] (book : ReceiptBook) (gate : EpochGateInner)
    (opening : Option Receipt) (adopting : Bool) (binding : RepairBinding)
    (resolved : ResolvedRepair) : Prop :=
  ((∃ receipt ∈ opening, resolved.Covers receipt) ∨
      ∃ receipt ∈ book.previousUntilInstalled, resolved.Covers receipt) ∧
    ¬ ∃ state ∈ binding.state book gate.phase opening adopting, state.installPending = true

instance [Crypto] (book : ReceiptBook) (gate : EpochGateInner) (opening : Option Receipt)
    (adopting : Bool) (binding : RepairBinding) (resolved : ResolvedRepair) :
    Decidable (LosingUnfenced book gate opening adopting binding resolved) :=
  inferInstanceAs (Decidable (_ ∧ ¬ ∃ state ∈ binding.state book gate.phase opening adopting, _))

/-- The source candidate carries the repair and stands on no losing role. -/
def compatibleSource [Crypto] (book : ReceiptBook) (gate : EpochGateInner)
    (opening : Option Receipt) (adopting : Bool) (binding : RepairBinding)
    (resolved : ResolvedRepair) : Except ReplError Unit := do
  if binding.hash ≠ resolved.repair.hash
      ∨ book.resolvedRepair.map (·.repair) ≠ some resolved.repair
      ∨ ¬ LifecycleFits book gate adopting then throw .receiptConflict
  if decide (gate.phase = .fault) ≠ book.isFaulted then throw .malformed
  if book.isFaulted = true ∨ ¬ SameIssuerTenure resolved then return ()
  if ∃ latest ∈ book.latest, resolved.Covers latest then throw .receiptConflict
  if LosingUnfenced book gate opening adopting binding resolved then throw .receiptConflict

namespace RepairSource

/-- Whether the source candidate fits the repair, for either kind of plan. -/
def compatiblePlan [Crypto] (source : RepairSource) (expected : RepairStateStamp)
    (resolved : ResolvedRepair) : RepairPlan → Except ReplError Unit
  | .candidate candidate =>
    compatibleSource candidate.book candidate.gate source.opening candidate.adopting
      candidate.binding resolved
  | .unchanged _ =>
    match source.binding with
    | none => .error .malformed
    | some binding =>
      compatibleSource source.book expected.gate source.opening source.adopting binding
        resolved

/-- Compute compatible source and journal candidates without changing either. -/
def planJoint [Crypto] (source : RepairSource) (repair : ReceiptRepair) (a b : Receipt)
    (journal : OwnerReceiptJournal) (retiringClose : Option CloseRecord)
    (sourceVersion : Hash32) (group : OwnerAuthority) (issuerTenure : UInt64) :
    Except ReplError ReceiptRepairPlan := do
  let expected ← source.stamp
  let plan ← source.plan repair a b group issuerTenure
  match plan with
  | .unchanged (.held _) => throw .receiptConflict
  | plan =>
    journal.checkRepairProgress repair
    let (effect, next) := journal.resolveRepair repair a b retiringClose group issuerTenure
    let effect ← effect
    let resolved := ResolvedRepair.between repair a b
    compatibleJournal next resolved
    source.compatiblePlan expected resolved plan
    pure ⟨resolved, sourceVersion, plan, expected, journal.encode, next, effect⟩

/-- Apply an exact prepared source candidate. -/
def commitJoint [Crypto] (source : RepairSource) (plan : ReceiptRepairPlan)
    (currentJournal : OwnerReceiptJournal) (sourceVersion : Hash32) (group : OwnerAuthority)
    (issuerTenure : UInt64) : Except ReplError SourceRepairOutcome × RepairSource :=
  match plan.resolved.repair.verifyCurrentOwner group issuerTenure,
      plan.resolved.repair.checkEvidence plan.resolved.selected plan.resolved.losing,
      source.bookBytes with
  | .error error, _, _ => (.error error, source)
  | .ok (), .error error, _ => (.error error, source)
  | .ok (), .ok (), book =>
    if plan.resolved.repair.document ≠ source.document
        ∨ sourceVersion ≠ plan.sourceVersion
        ∨ currentJournal.encode ≠ plan.journal.encode then (.error .receiptConflict, source)
    else match book with
      | .error error => (.error error, source)
      | .ok book =>
        if ¬ source.Stamped plan.expected book then (.error .receiptConflict, source)
        else match plan.source with
          | .candidate candidate => source.commit candidate
          | .unchanged outcome =>
            -- Even an exact retry fences gate changes after the comparison.
            let (result, gate, _) := source.gate.commitRepair plan.expected.gate
              plan.expected.gate .screened id ()
            (result.map fun _ => outcome, { source with gate := gate })

/-! ## What a joint plan remembers -/

/-- What a joint plan says about the source and the journal it was made on. -/
structure JointlyPlanned [Crypto] (source : RepairSource) (repair : ReceiptRepair)
    (a b : Receipt) (journal next : OwnerReceiptJournal) (plan : ReceiptRepairPlan) : Prop where
  expected : source.stamp = .ok plan.expected
  source : source.PlanResult repair a b plan.source
  original : plan.matchesOriginalJournal journal = true
  journal : plan.journal = next

variable {source : RepairSource}

theorem planJoint_spec [Crypto] {repair : ReceiptRepair} {a b : Receipt}
    {journal : OwnerReceiptJournal} {retiringClose : Option CloseRecord}
    {sourceVersion : Hash32} {group : OwnerAuthority} {issuerTenure : UInt64}
    {plan : ReceiptRepairPlan}
    (hok : source.planJoint repair a b journal retiringClose sourceVersion group issuerTenure
      = .ok plan) : source.JointlyPlanned repair a b journal
      (journal.resolveRepair repair a b retiringClose group issuerTenure).2 plan := by
  unfold planJoint at hok
  rcases bind_eq_ok.mp hok with ⟨expected, hexpected, hok⟩
  rcases bind_eq_ok.mp hok with ⟨planned, hplanned, hok⟩
  split at hok
  · cases hok
  · rcases bind_eq_ok.mp hok with ⟨_, -, hok⟩
    dsimp only at hok
    rcases bind_eq_ok.mp hok with ⟨effect, -, hok⟩
    rcases bind_eq_ok.mp hok with ⟨_, -, hok⟩
    rcases bind_eq_ok.mp hok with ⟨_, -, hok⟩
    cases hok
    exact ⟨hexpected, plan_result hplanned, decide_eq_true rfl, rfl⟩

/-! ## All or nothing -/

/-- What a committed repair leaves alone in the gate. -/
structure WorkKept (before after : EpochGateInner) : Prop where
  owner : after.owner = before.owner
  operations : after.operations = before.operations
  operationIds : after.operationIds = before.operationIds
  totalBytes : after.totalBytes = before.totalBytes
  byDevice : after.byDevice = before.byDevice
  quarantine : after.quarantine = before.quarantine ∨
    (after.phase = .opened ∧ after.quarantine = [])

theorem workKept_of_repairMove {before after : EpochGateInner}
    (hmove : EpochGate.RepairMove before after) : WorkKept before after := by
  cases hmove with
  | screened | closed hash => exact ⟨rfl, rfl, rfl, rfl, rfl, .inl rfl⟩
  | reopened => exact ⟨rfl, rfl, rfl, rfl, rfl, .inr ⟨rfl, rfl⟩⟩

/-- A committed joint repair found the planned source and journal. -/
structure Committed (planned current next : RepairSource)
    (plannedJournal currentJournal : OwnerReceiptJournal) : Prop where
  stamp : ∃ stamp, planned.stamp = .ok stamp ∧ current.stamp = .ok stamp
  journal : currentJournal.encode = plannedJournal.encode
  work : WorkKept current.gate.inner next.gate.inner

theorem gate_of_stamp {stamp : RepairStateStamp}
    (hstamp : source.stamp = .ok stamp) : source.gate.inner = stamp.gate := by
  rcases bind_eq_ok.mp hstamp with ⟨book, -, hstamp⟩
  cases hstamp
  rfl

/-- The stamp of a source that passed the comparison, once its gate is the planned one. -/
theorem stamp_of_stamped {stamp : RepairStateStamp} {book : Bytes}
    (hbook : source.bookBytes = .ok book) (hstamped : source.Stamped stamp book)
    (hgate : source.gate.inner = stamp.gate) : source.stamp = .ok stamp := by
  rcases hstamped with ⟨hbytes, hadopting, hbinding, hopening⟩
  rw [RepairSource.stamp, hbook, ok_bind, hgate, hbytes, hadopting, hbinding, hopening]
  rfl

/-- A planned joint repair is committed to exactly the planned source and journal, with the
accepted work kept, or it changes nothing at all. The source and the journal it meets are
arbitrary: whatever happened in between. -/
theorem commitJoint_all_or_nothing [Crypto] {planned : RepairSource} {repair : ReceiptRepair}
    {a b : Receipt} {journal : OwnerReceiptJournal} {retiringClose : Option CloseRecord}
    {plannedVersion : Hash32} {plannedGroup : OwnerAuthority} {plannedTenure : UInt64}
    {plan : ReceiptRepairPlan}
    (hplan : planned.planJoint repair a b journal retiringClose plannedVersion plannedGroup
      plannedTenure = .ok plan)
    (current : RepairSource) (currentJournal : OwnerReceiptJournal) (sourceVersion : Hash32)
    (group : OwnerAuthority) (issuerTenure : UInt64) :
    (∃ error, current.commitJoint plan currentJournal sourceVersion group issuerTenure
        = (.error error, current)) ∨
      ∃ outcome next, current.commitJoint plan currentJournal sourceVersion group issuerTenure
          = (.ok outcome, next) ∧
        Committed planned current next
          (journal.resolveRepair repair a b retiringClose plannedGroup plannedTenure).2
          currentJournal := by
  have hjoint := planJoint_spec hplan
  rw [← hjoint.journal]
  unfold commitJoint
  split
  · exact .inl ⟨_, rfl⟩
  · exact .inl ⟨_, rfl⟩
  · split <;> rename_i hscope
    · exact .inl ⟨_, rfl⟩
    · simp only [not_or, not_not] at hscope
      cases hbook : current.bookBytes with
      | error error => exact .inl ⟨_, rfl⟩
      | ok book =>
        dsimp only
        split <;> rename_i hstamped
        · exact .inl ⟨_, rfl⟩
        · rw [not_not] at hstamped
          split <;> rename_i hsource
          · rename_i candidate
            rcases current.commit_spec candidate with
              ⟨error, heq⟩ | ⟨hstamp, -, hmove, heq⟩
            · exact .inl ⟨error, heq⟩
            · have hcandidate : planned.Planned repair a b candidate := by
                have hresult := hjoint.source
                rw [hsource] at hresult
                cases hresult with
                | candidate hcandidate => exact hcandidate
              have hgate : current.gate.inner = candidate.expected.gate :=
                gate_of_stamp hstamp
              refine .inr ⟨_, _, heq, ⟨_, hcandidate.expected, hstamp⟩, hscope.2.2, ?_⟩
              rw [hgate]
              exact workKept_of_repairMove hmove
          · rcases current.gate.commitRepair_spec plan.expected.gate plan.expected.gate
              .screened id () with heq | ⟨heq, hgate, -, -⟩
            · rw [heq]
              exact .inl ⟨_, rfl⟩
            · rw [heq]
              refine .inr ⟨_, _, rfl, ⟨_, hjoint.expected,
                stamp_of_stamped hbook hstamped hgate⟩, hscope.2.2, ?_⟩
              rw [hgate]
              exact workKept_of_repairMove .screened

/-- The owner's repair of the faulted source is planned beside an empty journal and
committed. -/
theorem commitJoint_all_or_nothing_applied :
    ∃ plan outcome next,
      @planJoint plainCrypto faultedSource faultedRepair (plainReceipt plainDocument 1 5 0 2)
          (plainReceipt plainDocument 1 5 0 3) .empty none 0 (plainGroup [7] 1) 5 = .ok plan ∧
        @commitJoint plainCrypto faultedSource plan .empty 0 (plainGroup [7] 1) 5
          = (.ok outcome, next) ∧
        outcome = .applied .transitioned ∧
        Committed faultedSource faultedSource next
          (@OwnerReceiptJournal.resolveRepair plainCrypto .empty faultedRepair
            (plainReceipt plainDocument 1 5 0 2) (plainReceipt plainDocument 1 5 0 3) none
            (plainGroup [7] 1) 5).2 .empty := by
  have happlied : (@planJoint plainCrypto faultedSource faultedRepair
      (plainReceipt plainDocument 1 5 0 2) (plainReceipt plainDocument 1 5 0 3) .empty none 0
      (plainGroup [7] 1) 5 >>= fun plan =>
        (@commitJoint plainCrypto faultedSource plan .empty 0 (plainGroup [7] 1) 5).1)
      = .ok (.applied .transitioned) := by
    decide +kernel
  rcases bind_eq_ok.mp happlied with ⟨plan, hplan, hcommit⟩
  rcases @commitJoint_all_or_nothing plainCrypto _ _ _ _ _ _ _ _ _ _ hplan faultedSource .empty
    0 (plainGroup [7] 1) 5 with ⟨error, heq⟩ | ⟨outcome, next, heq, hcommitted⟩
  · rw [heq] at hcommit
    cases hcommit
  · rw [heq] at hcommit
    exact ⟨plan, outcome, next, hplan, heq, Except.ok.inj hcommit, hcommitted⟩

end RepairSource

end Mewtual
