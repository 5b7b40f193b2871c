import Mewtual.Epoch.Gate

/-!
# The binding of a source to its repair

A source that applied a signed repair keeps what the original application did, bound to the
exact repair by its hash. The binding tells whether the repair still waits for its selected
checkpoint to be installed, and fences other selections while it does.

Main results:

- Theorem {lit}`RepairBinding.validate_eq_ok`: what a validated binding establishes.
-/

namespace Mewtual

/-- Why a valid repair cannot presently change a source. -/
inductive RepairHold where
  | sequenceNotNewer
  | repairInProgress
  | settled
  | unsupportedShape
  deriving DecidableEq, Repr

/-- The in-memory result of a repair. -/
inductive SourceRepairOutcome where
  | applied (disposition : RepairDisposition)
  | alreadyResolved (disposition : RepairDisposition)
  | held (hold : RepairHold)
  deriving DecidableEq, Repr

/-- Committed evidence and the source's present continuation. -/
structure SourceRepairState where
  repair : ReceiptRepair
  selected : Receipt
  losing : Receipt
  installed : Bool
  installPending : Bool
  disposition : RepairDisposition
  deriving DecidableEq, Repr

/-- The original action, bound to one exact signed repair. -/
structure RepairBinding where
  disposition : RepairDisposition
  hash : Hash32
  deriving DecidableEq, Repr

/-- The repair was issued in the selected receipt's own tenure. -/
def SameIssuerTenure (resolved : ResolvedRepair) : Prop :=
  resolved.repair.ownerPublicKey = resolved.selected.ownerPublicKey ∧
    resolved.repair.issuerTenureStartGroupEpoch
      = some resolved.selected.tenureStartGroupEpoch

instance (resolved : ResolvedRepair) : Decidable (SameIssuerTenure resolved) :=
  inferInstanceAs (Decidable (_ ∧ _))

namespace RepairBinding

/-- Faults of an unfaulted book whose repair was issued in the selected receipt's tenure. -/
def LosingRole [Crypto] (binding : RepairBinding) (book : ReceiptBook)
    (resolved : ResolvedRepair) (opening : Option Receipt) (adopting : Bool) : Prop :=
  (∃ latest ∈ book.latest, resolved.Covers latest) ∨
    (binding.disposition = .screened ∧
      ((∃ receipt ∈ opening, resolved.Covers receipt) ∨
        ∃ receipt ∈ book.previousUntilInstalled, resolved.Covers receipt)) ∨
    (binding.disposition = .retargeted ∧ adopting = false ∧ opening = none)

instance [Crypto] (binding : RepairBinding) (book : ReceiptBook) (resolved : ResolvedRepair)
    (opening : Option Receipt) (adopting : Bool) :
    Decidable (binding.LosingRole book resolved opening adopting) :=
  inferInstanceAs (Decidable (_ ∨ _))

/-- Roles that contradict a repair that moved the source. -/
def LostProgress [Crypto] (book : ReceiptBook) (gate : EpochGate) (resolved : ResolvedRepair)
    (opening : Option Receipt) (adopting : Bool) : Prop :=
  (SameIssuerTenure resolved ∧ gate.inner.phase = .opened ∧ opening = none) ∨
    (SameIssuerTenure resolved ∧ adopting = false ∧
      ∃ receipt ∈ opening, resolved.Covers receipt) ∨
    (¬ SameIssuerTenure resolved ∧ adopting = true ∧ book.latest = some resolved.selected)

instance [Crypto] (book : ReceiptBook) (gate : EpochGate) (resolved : ResolvedRepair)
    (opening : Option Receipt) (adopting : Bool) :
    Decidable (LostProgress book gate resolved opening adopting) :=
  inferInstanceAs (Decidable (_ ∨ _))

/-- Check the binding against the present roles of the source. -/
def validate [Crypto] (binding : RepairBinding) (book : ReceiptBook) (gate : EpochGate)
    (opening : Option Receipt) (adopting : Bool) : Except ReplError Unit :=
  match book.resolvedRepair with
  | none => .error .malformed
  | some resolved => do
    resolved.verify (some gate.document) book.repairSequence
    if binding.hash ≠ resolved.repair.hash then throw .malformed
    if binding.disposition = .retargeted ∧ ¬ SameIssuerTenure resolved then throw .malformed
    if SameIssuerTenure resolved ∧ book.fault = none
        ∧ binding.LosingRole book resolved opening adopting then throw .malformed
    if binding.disposition ≠ .screened ∧ book.fault = none
        ∧ LostProgress book gate resolved opening adopting then throw .malformed
    pure ()

/-- The committed repair with its present continuation. -/
def state [Crypto] (binding : RepairBinding) (book : ReceiptBook) (phase : EpochPhase)
    (opening : Option Receipt) (adopting : Bool) : Option SourceRepairState :=
  match book.resolvedRepair with
  | none => none
  | some resolved =>
    if binding.hash ≠ resolved.repair.hash
        ∨ book.repairSequence ≠ resolved.repair.repairSequence then none
    else
      let installed := decide (opening = some resolved.selected
        ∧ (phase = .opened ∨ phase = .closing))
      some ⟨resolved.repair, resolved.selected, resolved.losing, installed,
        decide (binding.disposition ≠ .screened ∧ adopting = true ∧ phase = .closing
          ∧ book.latest = some resolved.selected ∧ installed = false),
        binding.disposition⟩

/-- The answer to a receipt while the repair waits for its selected checkpoint. -/
def pendingAdmission [Crypto] (binding : RepairBinding) (book : ReceiptBook)
    (phase : EpochPhase) (opening : Option Receipt) (adopting : Bool) (receipt : Receipt) :
    Option (Except ReplError ReceiptIngest) :=
  match binding.state book phase opening adopting with
  | none => none
  | some state =>
    if state.installPending = false then none
    else some (
      if book.IsRepairedLoser receipt then .ok .stale
      else if book.latest = some receipt then .ok .duplicate
      else .error .receiptConflict)

/-- What a validated binding establishes. -/
theorem validate_eq_ok [Crypto] {binding : RepairBinding} {book : ReceiptBook}
    {gate : EpochGate} {opening : Option Receipt} {adopting : Bool}
    (hok : binding.validate book gate opening adopting = .ok ()) :
    ∃ resolved, book.resolvedRepair = some resolved ∧
      resolved.verify (some gate.document) book.repairSequence = .ok () ∧
      (SameIssuerTenure resolved → book.fault = none →
        ∀ latest ∈ book.latest, ¬ resolved.Covers latest) := by
  unfold validate at hok
  cases hresolved : book.resolvedRepair with
  | none =>
    rw [hresolved] at hok
    cases hok
  | some resolved =>
    rw [hresolved] at hok
    rcases bind_eq_ok.mp hok with ⟨_, hverify, hok⟩
    rcases guard_eq_ok.mp hok with ⟨-, hok⟩
    rcases guard_eq_ok.mp hok with ⟨-, hok⟩
    rcases guard_eq_ok.mp hok with ⟨hroles, -⟩
    refine ⟨resolved, rfl, hverify, ?_⟩
    intro hsame hfault latest hlatest hcovers
    exact hroles ⟨hsame, hfault, .inl ⟨latest, hlatest, hcovers⟩⟩

end RepairBinding

end Mewtual
