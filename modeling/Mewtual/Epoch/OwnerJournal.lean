import Mewtual.Epoch.Repair
import Mewtual.Epoch.CloseRecord

/-!
# The owner's receipt journal

Crash-journaled owner state for one logical document: the last completed publication, the
one pending obligation, the decision a repair selected, and the evidence of that repair.
Each mutating operation is a pure function that returns its result together with the
journal it leaves behind.

Main results:

- Theorem {lit}`OwnerReceiptJournal.prepareVerified_spec`: what an accepted receipt does.
- Theorem {lit}`OwnerReceiptJournal.markPublished_spec`: what a completed publication does.
- Theorem {lit}`OwnerReceiptJournal.validateV2_eq_ok`: what the second version checks.
- Theorem {lit}`OwnerReceiptJournal.resolveRepair_spec`: what a repair does.
-/

namespace Mewtual

/-! ## Roles -/

/-- The owner tenure a receipt was signed in. -/
structure OwnerTenure where
  id : Hash32
  start : UInt64
  key : Bytes
  deriving DecidableEq, Repr

/-- {lit}`OwnerTenure::from`. -/
def Receipt.ownerTenure (receipt : Receipt) : OwnerTenure :=
  ⟨receipt.tenureId, receipt.tenureStartGroupEpoch, receipt.ownerPublicKey⟩

/-- Derived journal effect of a repair. -/
inductive JournalRepairEffect where
  | replace
  | retirePendingAndReplace
  | normalize
  | noChange
  deriving DecidableEq, Repr

/-- A retained repair, the obligation it retired, and the source's acknowledgement. -/
structure Provenance where
  resolved : ResolvedRepair
  retired : Option (Receipt × CloseRecord)
  sourceFinalized : Bool
  deriving DecidableEq, Repr

/-- Crash-journaled owner state for one logical document. -/
@[ext] structure OwnerReceiptJournal where
  document : Option LogicalDocument
  tenure : Option OwnerTenure
  highWater : Option Receipt
  inFlight : Option Receipt
  reconciled : Option Receipt
  provenance : Option Provenance
  versionTwo : Bool
  deriving DecidableEq, Repr

/-- The next receipt of the same tenure on the same baseline. -/
def Adjacent (base next : Receipt) : Prop :=
  base.document = next.document ∧ base.selection = next.selection ∧
    checkedAdd base.closedEpoch 1 = some next.closedEpoch

instance (base next : Receipt) : Decidable (Adjacent base next) :=
  inferInstanceAs (Decidable (_ ∧ _))

/-- The selection determines the owner tenure. -/
theorem Adjacent.ownerTenure {base next : Receipt} (h : Adjacent base next) :
    base.ownerTenure = next.ownerTenure := by
  have hselection := h.2.1
  simp only [Receipt.selection, TenureSelection.mk.injEq] at hselection
  simp only [Receipt.ownerTenure, OwnerTenure.mk.injEq]
  exact ⟨hselection.1, hselection.2.1, hselection.2.2.2⟩

namespace OwnerReceiptJournal

/-- {lit}`OwnerReceiptJournal::default`. -/
def empty : OwnerReceiptJournal := ⟨none, none, none, none, none, none, false⟩

/-- Base for the next ordinary receipt. -/
def canonicalHead (journal : OwnerReceiptJournal) : Option Receipt :=
  journal.reconciled.or journal.highWater

/-- Pending publication takes precedence over the canonical adjacency base. -/
def effectiveChoice (journal : OwnerReceiptJournal) : Option Receipt :=
  journal.inFlight.or journal.canonicalHead

/-- Progress every repair must make, even where the journal's roles stay unchanged. -/
def checkRepairProgress (journal : OwnerReceiptJournal) (repair : ReceiptRepair) :
    Except ReplError Unit :=
  if ∃ proof ∈ journal.provenance, proof.resolved.repair ≠ repair ∧
      (proof.sourceFinalized = false ∨
        (repair.issuerTenureStartGroupEpoch
            = proof.resolved.repair.issuerTenureStartGroupEpoch ∧
          repair.repairSequence ≤ proof.resolved.repair.repairSequence)) then
    .error .receiptConflict
  else .ok ()

/-! ## Preparing a publication -/

/-- The receipt belongs to another tenure than the journal. -/
def ChangesTenure (journal : OwnerReceiptJournal) (receipt : Receipt) : Prop :=
  ∃ old ∈ journal.tenure, old ≠ receipt.ownerTenure

instance (journal : OwnerReceiptJournal) (receipt : Receipt) :
    Decidable (journal.ChangesTenure receipt) :=
  inferInstanceAs (Decidable (∃ old ∈ journal.tenure, _))

/-- The early returns within one tenure: an exact retry, or a receipt that does not follow
the decision already made. -/
def compareDecision [Crypto] (journal : OwnerReceiptJournal) (receipt : Receipt) :
    Option (Except ReplError Unit) :=
  match journal.inFlight with
  | some pending =>
    if pending.hash = receipt.hash then some (.ok ()) else some (.error .receiptConflict)
  | none =>
    match journal.canonicalHead with
    | some base =>
      if base.hash = receipt.hash then some (.ok ())
      else if ¬ Adjacent base receipt then some (.error .receiptConflict)
      else none
    | none => none

/-- Take the receipt as the outstanding obligation. -/
@[simps] def obliged (journal : OwnerReceiptJournal) (receipt : Receipt) : OwnerReceiptJournal :=
  { journal with
    document := some (journal.document.getD receipt.document)
    tenure := some receipt.ownerTenure
    highWater := if journal.ChangesTenure receipt then none else journal.highWater
    inFlight := some receipt }

/-- Prepare a receipt whose signature was checked. -/
def prepareVerified [Crypto] (journal : OwnerReceiptJournal) (receipt : Receipt) :
    Except ReplError Unit × OwnerReceiptJournal :=
  if ∃ document ∈ journal.document, document ≠ receipt.document then
    (.error .epochScope, journal)
  else if (journal.tenure = none ∨ journal.ChangesTenure receipt) ∧
      (receipt.closedEpoch ≠ receipt.inherited.epoch ∨
        ∃ old ∈ journal.tenure, receipt.ownerTenure.start ≤ old.start) then
    (.error .receiptConflict, journal)
  else if journal.provenance ≠ none ∧
      (journal.reconciled = none ∨ journal.ChangesTenure receipt) then
    (.error .receiptConflict, journal)
  else if journal.ChangesTenure receipt then (.ok (), journal.obliged receipt)
  else
    match journal.compareDecision receipt with
    | some outcome => (outcome, journal)
    | none => (.ok (), journal.obliged receipt)

/-- Prepare an irrevocable publication obligation after checking present owner authority. -/
def prepare [Crypto] (journal : OwnerReceiptJournal) (receipt : Receipt)
    (group : OwnerAuthority) (expectedTenureStart : UInt64) :
    Except ReplError Unit × OwnerReceiptJournal :=
  match receipt.verifyCurrentOwner group expectedTenureStart with
  | .error error => (.error error, journal)
  | .ok _ =>
    if journal.versionTwo = true then
      match Receipt.decode receipt.encode with
      | .error error => (.error error, journal)
      | .ok _ => journal.prepareVerified receipt
    else journal.prepareVerified receipt

/-- What an accepted receipt does to the journal. -/
inductive Prepared [Crypto] (journal : OwnerReceiptJournal) (receipt : Receipt) :
    OwnerReceiptJournal → Prop
  | retry {held : Receipt} (hsame : ¬ journal.ChangesTenure receipt)
      (hheld : held ∈ journal.effectiveChoice) (hhash : held.hash = receipt.hash) :
      Prepared journal receipt journal
  | follows (hsame : ¬ journal.ChangesTenure receipt) (hidle : journal.inFlight = none)
      (hfirst : journal.tenure = none → receipt.closedEpoch = receipt.inherited.epoch)
      (hrepair : journal.provenance ≠ none → journal.reconciled ≠ none)
      (hbase : ∀ base ∈ journal.canonicalHead, Adjacent base receipt) :
      Prepared journal receipt (journal.obliged receipt)
  | replaces {old : OwnerTenure} (htenure : journal.tenure = some old)
      (hother : old ≠ receipt.ownerTenure)
      (hclosed : receipt.closedEpoch = receipt.inherited.epoch)
      (hstart : old.start < receipt.ownerTenure.start) (hclear : journal.provenance = none) :
      Prepared journal receipt (journal.obliged receipt)

variable {journal : OwnerReceiptJournal}

theorem scope_of_not_exists {receipt : Receipt}
    (hscope : ¬ ∃ document ∈ journal.document, document ≠ receipt.document) :
    journal.document = none ∨ journal.document = some receipt.document := by
  cases hdocument : journal.document with
  | none => exact .inl rfl
  | some document =>
    refine .inr (congrArg some ?_)
    by_contra hne
    exact hscope ⟨document, hdocument, hne⟩

/-- The comparison accepts an exact retry of the effective choice, refuses, or finds that the
receipt follows the idle journal's head. -/
theorem compareDecision_spec [Crypto] (journal : OwnerReceiptJournal) (receipt : Receipt) :
    (∃ held ∈ journal.effectiveChoice, held.hash = receipt.hash ∧
      journal.compareDecision receipt = some (.ok ())) ∨
    (∃ error, journal.compareDecision receipt = some (.error error)) ∨
    (journal.inFlight = none ∧ (∀ base ∈ journal.canonicalHead, Adjacent base receipt) ∧
      journal.compareDecision receipt = none) := by
  unfold compareDecision effectiveChoice
  cases journal.inFlight with
  | some pending =>
    dsimp only
    split <;> rename_i hhash
    · exact .inl ⟨pending, rfl, hhash, rfl⟩
    · exact .inr (.inl ⟨_, rfl⟩)
  | none =>
    cases journal.canonicalHead with
    | none => exact .inr (.inr ⟨rfl, forall_mem_none, rfl⟩)
    | some base =>
      dsimp only
      split <;> rename_i hhash
      · exact .inl ⟨base, rfl, hhash, rfl⟩
      · split <;> rename_i hadjacent
        · exact .inr (.inl ⟨_, rfl⟩)
        · refine .inr (.inr ⟨rfl, ?_, rfl⟩)
          rintro found ⟨⟩
          exact not_not.mp hadjacent

/-- A receipt is refused and changes nothing, or it is accepted as {lit}`Prepared` says. -/
theorem prepareVerified_spec [Crypto] (journal : OwnerReceiptJournal) (receipt : Receipt) :
    (∃ error, journal.prepareVerified receipt = (.error error, journal)) ∨
      (journal.document = none ∨ journal.document = some receipt.document) ∧
        ∃ next, journal.prepareVerified receipt = (.ok (), next) ∧
          journal.Prepared receipt next := by
  unfold prepareVerified
  by_cases hscope : ∃ document ∈ journal.document, document ≠ receipt.document
  · exact .inl ⟨_, if_pos hscope⟩
  rw [if_neg hscope]
  by_cases hstart : (journal.tenure = none ∨ journal.ChangesTenure receipt) ∧
      (receipt.closedEpoch ≠ receipt.inherited.epoch ∨
        ∃ old ∈ journal.tenure, receipt.ownerTenure.start ≤ old.start)
  · exact .inl ⟨_, if_pos hstart⟩
  rw [if_neg hstart]
  by_cases hrepair : journal.provenance ≠ none ∧
      (journal.reconciled = none ∨ journal.ChangesTenure receipt)
  · exact .inl ⟨_, if_pos hrepair⟩
  rw [if_neg hrepair]
  have hdocument := scope_of_not_exists hscope
  by_cases hchanges : journal.ChangesTenure receipt
  · refine .inr ⟨hdocument, _, if_pos hchanges, ?_⟩
    rcases hchanges with ⟨old, htenure, hother⟩
    have hfirst : ¬ (receipt.closedEpoch ≠ receipt.inherited.epoch ∨
        ∃ old ∈ journal.tenure, receipt.ownerTenure.start ≤ old.start) :=
      fun h => hstart ⟨.inr ⟨old, htenure, hother⟩, h⟩
    rcases not_or.mp hfirst with ⟨hclosed, hlater⟩
    refine .replaces htenure hother (not_not.mp hclosed) ?_ ?_
    · exact UInt64.not_le.mp fun hle => hlater ⟨old, htenure, hle⟩
    · by_contra hsome
      exact hrepair ⟨hsome, .inr ⟨old, htenure, hother⟩⟩
  · rw [if_neg hchanges]
    rcases journal.compareDecision_spec receipt with
      ⟨held, hheld, hhash, hcompare⟩ | ⟨error, hcompare⟩ | ⟨hidle, hbase, hcompare⟩
    · rw [hcompare]
      exact .inr ⟨hdocument, journal, rfl, .retry hchanges hheld hhash⟩
    · rw [hcompare]
      exact .inl ⟨error, rfl⟩
    · rw [hcompare]
      refine .inr ⟨hdocument, _, rfl, .follows hchanges hidle ?_ ?_ hbase⟩
      · intro htenure
        by_contra hclosed
        exact hstart ⟨.inl htenure, .inl hclosed⟩
      · intro hsome hnone
        exact hrepair ⟨hsome, .inl hnone⟩

/-! ## Acknowledgements -/

/-- Drop the repair's evidence once its source is finalized and nothing is reconciled. -/
def cleanupFinalized (journal : OwnerReceiptJournal) : OwnerReceiptJournal :=
  if journal.reconciled = none ∧ ∃ proof ∈ journal.provenance, proof.sourceFinalized = true then
    { journal with provenance := none }
  else journal

/-- The decision is the completed publication. -/
@[simps] def completed (journal : OwnerReceiptJournal) (decision : Receipt) :
    OwnerReceiptJournal :=
  { journal with highWater := some decision, inFlight := none, reconciled := none }

/-- Record actual completion of the exact still-authorized decision. -/
def markPublished [Crypto] (journal : OwnerReceiptJournal) (receiptHash : Hash32) :
    Except ReplError Unit × OwnerReceiptJournal :=
  -- A pending decision may reselect the exact historical publication; only a genuinely
  -- historical retry is inert.
  if (∃ held ∈ journal.highWater, held.hash = receiptHash) ∧
      ∀ held ∈ journal.inFlight, held.hash ≠ receiptHash then (.ok (), journal)
  else if journal.provenance ≠ none ∧ journal.reconciled = none then
    (.error .receiptConflict, journal)
  else
    match (journal.inFlight.or journal.reconciled).filter (·.hash = receiptHash) with
    | none => (.error .receiptConflict, journal)
    | some decision => (.ok (), (journal.completed decision).cleanupFinalized)

/-- The retained repair's source is acknowledged. -/
@[simps] def acknowledged (journal : OwnerReceiptJournal) (proof : Provenance) :
    OwnerReceiptJournal :=
  { journal with provenance := some { proof with sourceFinalized := true } }

/-- Acknowledge completion of the matching durable source transaction. -/
def markRepairSourceFinalized [Crypto] (journal : OwnerReceiptJournal) (repairHash : Hash32) :
    Except ReplError Unit × OwnerReceiptJournal :=
  match journal.provenance.filter (·.resolved.repair.hash = repairHash) with
  | none => (.error .receiptConflict, journal)
  | some proof => (.ok (), (journal.acknowledged proof).cleanupFinalized)

/-- A completed publication is refused, is inert, or records the pending decision, else the
reconciled one. -/
theorem markPublished_spec [Crypto] (journal : OwnerReceiptJournal) (receiptHash : Hash32) :
    (∃ error, journal.markPublished receiptHash = (.error error, journal)) ∨
      journal.markPublished receiptHash = (.ok (), journal) ∨
      ∃ decision ∈ journal.inFlight.or journal.reconciled, decision.hash = receiptHash ∧
        (journal.provenance ≠ none → journal.reconciled ≠ none) ∧
        journal.markPublished receiptHash
          = (.ok (), (journal.completed decision).cleanupFinalized) := by
  unfold markPublished
  by_cases hinert : (∃ held ∈ journal.highWater, held.hash = receiptHash) ∧
      ∀ held ∈ journal.inFlight, held.hash ≠ receiptHash
  · exact .inr (.inl (if_pos hinert))
  rw [if_neg hinert]
  by_cases hheld : journal.provenance ≠ none ∧ journal.reconciled = none
  · exact .inl ⟨_, if_pos hheld⟩
  rw [if_neg hheld]
  cases hdecision : (journal.inFlight.or journal.reconciled).filter (·.hash = receiptHash) with
  | none => exact .inl ⟨_, rfl⟩
  | some decision =>
    rcases Option.filter_eq_some_iff.mp hdecision with ⟨hmem, hhash⟩
    exact .inr (.inr ⟨decision, hmem, of_decide_eq_true hhash,
      fun hsome hnone => hheld ⟨hsome, hnone⟩, rfl⟩)

/-- An acknowledgement is refused, or it finalizes the retained repair. -/
theorem markRepairSourceFinalized_spec [Crypto] (journal : OwnerReceiptJournal)
    (repairHash : Hash32) :
    (∃ error, journal.markRepairSourceFinalized repairHash = (.error error, journal)) ∨
      ∃ proof ∈ journal.provenance, journal.markRepairSourceFinalized repairHash
        = (.ok (), (journal.acknowledged proof).cleanupFinalized) := by
  unfold markRepairSourceFinalized
  cases hproof : journal.provenance.filter (·.resolved.repair.hash = repairHash) with
  | none => exact .inl ⟨_, rfl⟩
  | some proof => exact .inr ⟨proof, (Option.filter_eq_some_iff.mp hproof).1, rfl⟩

/-! ## Validation -/

/-- What {lit}`validate_adjacency` requires of the pending receipt. -/
def FollowsHead (head : Option Receipt) (pending : Receipt) : Prop :=
  match head with
  | some base => Adjacent base pending
  | none => pending.closedEpoch = pending.inherited.epoch

instance (head : Option Receipt) (pending : Receipt) : Decidable (FollowsHead head pending) :=
  match head with
  | some base => inferInstanceAs (Decidable (Adjacent base pending))
  | none => inferInstanceAs (Decidable (_ = _))

/-- The in-flight receipt follows the canonical head. -/
def validateAdjacency (journal : OwnerReceiptJournal) : Except ReplError Unit :=
  if ∀ pending ∈ journal.inFlight, FollowsHead journal.canonicalHead pending then .ok ()
  else .error .malformed

/-- A retained receipt is signed and of the journal. -/
def validateReceipt [Crypto] (journal : OwnerReceiptJournal) (receipt : Receipt) :
    Except ReplError Unit := do
  receipt.verifySignatureOnly
  let decoded ← Receipt.decode receipt.encode
  if decoded ≠ receipt then throw .malformed
  if journal.document ≠ some receipt.document ∨ journal.tenure ≠ some receipt.ownerTenure then
    throw .epochScope
  pure ()

/-- The retired obligation is covered by the repair and its close is the one it names. -/
def validateRetired [Crypto] (resolved : ResolvedRepair) (receipt : Receipt)
    (close : CloseRecord) : Except ReplError Unit := do
  if close.serverId.length > maxServerIdBytes ∨ close.heads.length > maxHeads
      ∨ close.authorPublicKey.length ≠ 32 then throw .epochBound
  let decoded ← CloseRecord.decode close.encode
  if decoded ≠ close then throw .malformed
  if Crypto.verifyWithPublicBytes close.authorPublicKey (fixedBytes close.signatureHash)
      close.signature = false then throw .epochAuthority
  if ¬ resolved.Covers receipt ∨ close.serverId ≠ receipt.document.serverId
      ∨ close.docType ≠ receipt.document.docType ∨ close.closedEpoch ≠ receipt.closedEpoch
      ∨ close.hash ≠ receipt.closeRecordHash then throw .receiptConflict
  pure ()

/-- The evidence behind a retired receipt. -/
def validateRetirement [Crypto] (journal : OwnerReceiptJournal) (proof : Provenance) :
    Except ReplError Unit :=
  match proof.retired with
  | none => .ok ()
  | some (receipt, close) => do
    journal.validateReceipt receipt
    validateRetired proof.resolved receipt close

/-- The roles beside a retained repair: its selected receipt is reconciled, or the
publication is that receipt or the one that follows it. -/
def validateRoles (journal : OwnerReceiptJournal) (proof : Provenance) : Except ReplError Unit :=
  match journal.reconciled with
  | some reconciled =>
    if reconciled ≠ proof.resolved.selected ∨ journal.highWater = some reconciled then
      .error .malformed
    else .ok ()
  | none =>
    if proof.sourceFinalized = true ∨ journal.inFlight ≠ none ∨
        ¬ ∃ held ∈ journal.highWater,
          held = proof.resolved.selected ∨ Adjacent proof.resolved.selected held then
      .error .malformed
    else .ok ()

/-- Where the reconciled receipt came from. -/
def validateProvenance [Crypto] (journal : OwnerReceiptJournal) : Except ReplError Unit :=
  match journal.provenance with
  | none => if journal.reconciled ≠ none then .error .malformed else .ok ()
  | some proof => do
    proof.resolved.verify journal.document proof.resolved.repair.repairSequence
    journal.validateReceipt proof.resolved.selected
    journal.validateReceipt proof.resolved.losing
    journal.validateRetirement proof
    journal.validateRoles proof

/-- The receipts in the publication roles, in the order they are checked. -/
def roles (journal : OwnerReceiptJournal) : List Receipt :=
  journal.highWater.toList ++ journal.inFlight.toList ++ journal.reconciled.toList

/-- Everything that a version two journal must satisfy. -/
def validateV2 [Crypto] (journal : OwnerReceiptJournal) : Except ReplError Unit := do
  if journal.document.isSome ≠ journal.tenure.isSome then throw .malformed
  journal.roles.forM journal.validateReceipt
  journal.validateAdjacency
  journal.validateProvenance

/-- What {lit}`validate_receipt` establishes. -/
structure ReceiptOk [Crypto] (journal : OwnerReceiptJournal) (receipt : Receipt) : Prop where
  wellFormed : receipt.WellFormed
  signature : receipt.verifySignatureOnly = .ok ()
  document : journal.document = some receipt.document
  tenure : journal.tenure = some receipt.ownerTenure

/-- What the second version requires of a retained repair. -/
structure ProofOk [Crypto] (journal : OwnerReceiptJournal) (proof : Provenance) : Prop where
  verified : proof.resolved.verify journal.document proof.resolved.repair.repairSequence = .ok ()
  selected : journal.ReceiptOk proof.resolved.selected
  losing : journal.ReceiptOk proof.resolved.losing
  retired : ∀ pair ∈ proof.retired, journal.ReceiptOk pair.1 ∧
    validateRetired proof.resolved pair.1 pair.2 = .ok ()
  reconciled : ∀ receipt ∈ journal.reconciled, receipt = proof.resolved.selected ∧
    journal.highWater ≠ some receipt
  witness : journal.reconciled = none → proof.sourceFinalized = false ∧
    journal.inFlight = none ∧ ∃ held ∈ journal.highWater,
      held = proof.resolved.selected ∨ Adjacent proof.resolved.selected held

/-- What the second version requires of the journal. -/
structure ValidV2 [Crypto] (journal : OwnerReceiptJournal) : Prop where
  named : journal.document.isSome = journal.tenure.isSome
  roles : ∀ receipt ∈ journal.roles, journal.ReceiptOk receipt
  adjacency : ∀ pending ∈ journal.inFlight, FollowsHead journal.canonicalHead pending
  clear : journal.provenance = none → journal.reconciled = none
  proof : ∀ proof ∈ journal.provenance, journal.ProofOk proof

section Validation

variable [Crypto] {journal : OwnerReceiptJournal}

theorem validateReceipt_eq_ok {receipt : Receipt} :
    journal.validateReceipt receipt = .ok () ↔ journal.ReceiptOk receipt := by
  unfold validateReceipt
  constructor
  · intro hok
    rcases bind_eq_ok.mp hok with ⟨_, hsignature, hok⟩
    rcases bind_eq_ok.mp hok with ⟨decoded, hdecode, hok⟩
    rcases guard_eq_ok.mp hok with ⟨hsame, hok⟩
    rcases guard_eq_ok.mp hok with ⟨hscope, -⟩
    obtain rfl := not_not.mp hsame
    rcases not_or.mp hscope with ⟨hdocument, htenure⟩
    exact ⟨(Receipt.encode_of_decode hdecode).2, hsignature, not_not.mp hdocument,
      not_not.mp htenure⟩
  · intro h
    rw [h.signature, ok_bind, Receipt.decode_encode h.wellFormed, ok_bind,
      if_neg (not_not.mpr rfl),
      if_neg (not_or.mpr ⟨not_not.mpr h.document, not_not.mpr h.tenure⟩)]
    rfl

omit [Crypto] in
theorem validateAdjacency_eq_ok :
    journal.validateAdjacency = .ok () ↔
      ∀ pending ∈ journal.inFlight, FollowsHead journal.canonicalHead pending := by
  unfold validateAdjacency
  split <;> rename_i hfollows
  · exact ⟨fun _ => hfollows, fun _ => rfl⟩
  · exact ⟨nofun, fun h => absurd h hfollows⟩

theorem validateRetirement_eq_ok {proof : Provenance} :
    journal.validateRetirement proof = .ok () ↔
      ∀ pair ∈ proof.retired, journal.ReceiptOk pair.1 ∧
        validateRetired proof.resolved pair.1 pair.2 = .ok () := by
  unfold validateRetirement
  cases hretired : proof.retired with
  | none => exact ⟨fun _ => forall_mem_none, fun _ => rfl⟩
  | some pair =>
    rcases pair with ⟨receipt, close⟩
    constructor
    · intro hok held hheld
      obtain rfl := Option.some.inj hheld
      rcases bind_eq_ok.mp hok with ⟨_, hreceipt, hclose⟩
      exact ⟨validateReceipt_eq_ok.mp hreceipt, hclose⟩
    · intro h
      rcases h (receipt, close) rfl with ⟨hreceipt, hclose⟩
      exact bind_eq_ok.mpr ⟨_, validateReceipt_eq_ok.mpr hreceipt, hclose⟩

omit [Crypto] in
theorem validateRoles_eq_ok {proof : Provenance} :
    journal.validateRoles proof = .ok () ↔
      (∀ receipt ∈ journal.reconciled, receipt = proof.resolved.selected ∧
        journal.highWater ≠ some receipt) ∧
      (journal.reconciled = none → proof.sourceFinalized = false ∧
        journal.inFlight = none ∧ ∃ held ∈ journal.highWater,
          held = proof.resolved.selected ∨ Adjacent proof.resolved.selected held) := by
  unfold validateRoles
  cases hreconciled : journal.reconciled with
  | some reconciled =>
    dsimp only
    rw [guard_eq_ok, not_or, not_not]
    constructor
    · rintro ⟨hroles, -⟩
      refine ⟨?_, nofun⟩
      rintro receipt ⟨⟩
      exact hroles
    · intro h
      exact ⟨h.1 reconciled rfl, rfl⟩
  | none =>
    dsimp only
    rw [guard_eq_ok, not_or, not_or, not_not, not_not, Bool.not_eq_true]
    constructor
    · rintro ⟨hroles, -⟩
      exact ⟨forall_mem_none, fun _ => hroles⟩
    · intro h
      exact ⟨h.2 rfl, rfl⟩

theorem validateProvenance_eq_ok :
    journal.validateProvenance = .ok () ↔
      (journal.provenance = none → journal.reconciled = none) ∧
      ∀ proof ∈ journal.provenance, journal.ProofOk proof := by
  unfold validateProvenance
  cases hproof : journal.provenance with
  | none =>
    dsimp only
    rw [guard_eq_ok, not_not]
    constructor
    · rintro ⟨hreconciled, -⟩
      exact ⟨fun _ => hreconciled, forall_mem_none⟩
    · intro h
      exact ⟨h.1 rfl, rfl⟩
  | some proof =>
    constructor
    · intro hok
      rcases bind_eq_ok.mp hok with ⟨_, hverify, hok⟩
      rcases bind_eq_ok.mp hok with ⟨_, hselected, hok⟩
      rcases bind_eq_ok.mp hok with ⟨_, hlosing, hok⟩
      rcases bind_eq_ok.mp hok with ⟨_, hretired, hroles⟩
      rcases validateRoles_eq_ok.mp hroles with ⟨hreconciled, hwitness⟩
      refine ⟨nofun, ?_⟩
      intro held hheld
      obtain rfl := Option.some.inj hheld
      exact ⟨hverify, validateReceipt_eq_ok.mp hselected, validateReceipt_eq_ok.mp hlosing,
        validateRetirement_eq_ok.mp hretired, hreconciled, hwitness⟩
    · rintro ⟨-, h⟩
      have hok := h proof rfl
      dsimp only
      rw [hok.verified, ok_bind, validateReceipt_eq_ok.mpr hok.selected, ok_bind,
        validateReceipt_eq_ok.mpr hok.losing, ok_bind,
        validateRetirement_eq_ok.mpr hok.retired, ok_bind]
      exact validateRoles_eq_ok.mpr ⟨hok.reconciled, hok.witness⟩

/-- The second version's check, as one predicate. -/
theorem validateV2_eq_ok : journal.validateV2 = .ok () ↔ journal.ValidV2 := by
  unfold validateV2
  constructor
  · intro hok
    rcases guard_eq_ok.mp hok with ⟨hnamed, hok⟩
    rcases bind_eq_ok.mp hok with ⟨_, hroles, hok⟩
    rcases bind_eq_ok.mp hok with ⟨_, hadjacency, hproof⟩
    rcases validateProvenance_eq_ok.mp hproof with ⟨hclear, hproof⟩
    exact ⟨not_not.mp hnamed,
      fun receipt hmem => validateReceipt_eq_ok.mp (forM_eq_ok.mp hroles receipt hmem),
      validateAdjacency_eq_ok.mp hadjacency, hclear, hproof⟩
  · intro h
    have hroles : journal.roles.forM journal.validateReceipt = .ok () :=
      forM_eq_ok.mpr fun receipt hmem => validateReceipt_eq_ok.mpr (h.roles receipt hmem)
    rw [if_neg (not_not.mpr h.named), hroles, ok_bind,
      validateAdjacency_eq_ok.mpr h.adjacency, ok_bind]
    exact validateProvenance_eq_ok.mpr ⟨h.clear, h.proof⟩

end Validation

/-! ## Repairs -/

/-- The selected receipt is the completed publication already. -/
def Normalized [Crypto] (journal : OwnerReceiptJournal) (resolved : ResolvedRepair) : Prop :=
  ∃ held ∈ journal.highWater, held.hash = resolved.selected.hash

instance [Crypto] (journal : OwnerReceiptJournal) (resolved : ResolvedRepair) :
    Decidable (journal.Normalized resolved) :=
  inferInstanceAs (Decidable (∃ held ∈ journal.highWater, _))

/-- The pending loser with its close, when one is pending. -/
def retire [Crypto] (journal : OwnerReceiptJournal) (resolved : ResolvedRepair)
    (retiringClose : Option CloseRecord) : Except ReplError (Option (Receipt × CloseRecord)) :=
  match journal.inFlight with
  | none => .ok none
  | some pending =>
    match retiringClose with
    | none => .error .receiptConflict
    | some close => do
      validateRetired resolved pending close
      pure (some (pending, close))

/-- The candidate a repair leaves behind. -/
@[simps] def repaired [Crypto] (journal : OwnerReceiptJournal) (resolved : ResolvedRepair)
    (retired : Option (Receipt × CloseRecord)) : OwnerReceiptJournal :=
  { journal with
    versionTwo := true
    inFlight := none
    reconciled := if journal.Normalized resolved then none else some resolved.selected
    provenance := some ⟨resolved, retired, false⟩ }

/-- {lit}`resolve_repair` up to its final assignment. -/
def resolve [Crypto] (journal : OwnerReceiptJournal) (repair : ReceiptRepair) (a b : Receipt)
    (retiringClose : Option CloseRecord) (group : OwnerAuthority)
    (issuerTenureStart : UInt64) :
    Except ReplError (JournalRepairEffect × OwnerReceiptJournal) := do
  repair.verifyCurrentOwner group issuerTenureStart
  repair.checkEvidence a b
  if ∃ document ∈ journal.document, document ≠ repair.document then throw .epochScope
  let resolved := ResolvedRepair.between repair a b
  if ∃ proof ∈ journal.provenance, proof.resolved.repair.hash = repair.hash then
    return (.noChange, journal)
  -- Historical high-water alone cannot displace a different effective choice.
  if ¬ (∃ choice ∈ journal.effectiveChoice, resolved.Covers choice) ∧
      ¬ (journal.inFlight = none ∧ journal.reconciled = none ∧ journal.Normalized resolved) then
    return (.noChange, journal)
  if journal.tenure ≠ some resolved.selected.ownerTenure then throw .epochScope
  if ∃ proof ∈ journal.provenance, proof.sourceFinalized = false ∨
      (repair.issuerTenureStartGroupEpoch = proof.resolved.repair.issuerTenureStartGroupEpoch ∧
        repair.repairSequence ≤ proof.resolved.repair.repairSequence) then
    throw .receiptConflict
  let retired ← journal.retire resolved retiringClose
  let candidate := journal.repaired resolved retired
  candidate.validateV2
  pure (if journal.Normalized resolved then .normalize
    else if retired.isSome then .retirePendingAndReplace else .replace, candidate)

/-- Reconcile an exact loser or a provable differing-baseline descendant. -/
def resolveRepair [Crypto] (journal : OwnerReceiptJournal) (repair : ReceiptRepair)
    (a b : Receipt) (retiringClose : Option CloseRecord) (group : OwnerAuthority)
    (issuerTenureStart : UInt64) : Except ReplError JournalRepairEffect × OwnerReceiptJournal :=
  match journal.resolve repair a b retiringClose group issuerTenureStart with
  | .error error => (.error error, journal)
  | .ok (effect, candidate) => (.ok effect, candidate)

/-- A repair is refused, changes nothing, or leaves a candidate that was validated. -/
theorem resolveRepair_spec [Crypto] (journal : OwnerReceiptJournal) (repair : ReceiptRepair)
    (a b : Receipt) (retiringClose : Option CloseRecord) (group : OwnerAuthority)
    (issuerTenureStart : UInt64) :
    (∃ error, journal.resolveRepair repair a b retiringClose group issuerTenureStart
        = (.error error, journal)) ∨
      journal.resolveRepair repair a b retiringClose group issuerTenureStart
        = (.ok .noChange, journal) ∨
      ∃ effect retired,
        EvidencePair repair a b ∧
        journal.tenure = some (ResolvedRepair.between repair a b).selected.ownerTenure ∧
        (journal.repaired (ResolvedRepair.between repair a b) retired).ValidV2 ∧
        journal.resolveRepair repair a b retiringClose group issuerTenureStart
          = (.ok effect, journal.repaired (ResolvedRepair.between repair a b) retired) := by
  unfold resolveRepair
  cases hresolve : journal.resolve repair a b retiringClose group issuerTenureStart with
  | error error => exact .inl ⟨error, rfl⟩
  | ok pair =>
    rcases pair with ⟨effect, candidate⟩
    refine .inr ?_
    unfold resolve at hresolve
    rcases bind_eq_ok.mp hresolve with ⟨_, -, hresolve⟩
    rcases bind_eq_ok.mp hresolve with ⟨_, hevidence, hresolve⟩
    rcases guard_eq_ok.mp hresolve with ⟨-, hresolve⟩
    dsimp only at hresolve
    split at hresolve
    · cases hresolve
      exact .inl rfl
    · split at hresolve
      · cases hresolve
        exact .inl rfl
      · rcases guard_eq_ok.mp hresolve with ⟨htenure, hresolve⟩
        rcases guard_eq_ok.mp hresolve with ⟨-, hresolve⟩
        rcases bind_eq_ok.mp hresolve with ⟨retired, -, hresolve⟩
        rcases bind_eq_ok.mp hresolve with ⟨_, hvalid, hresolve⟩
        cases hresolve
        exact .inr ⟨_, retired, ReceiptRepair.checkEvidence_eq_ok hevidence,
          not_not.mp htenure, validateV2_eq_ok.mp hvalid, rfl⟩

end OwnerReceiptJournal

end Mewtual
