import Mewtual.Epoch.Adoption
import Mewtual.Epoch.BookCodec
import Mewtual.Epoch.GateCodec

/-!
# Checking a restored unit

The pieces of a restart unit are saved apart and are checked together when they are read
back: the accepted operations against the gate, the book against the gate's phase and seal,
and the retained opening receipt against both. Ordinary restart expects adjacent epochs;
a unit saved while adopting a distant checkpoint has rules of its own.

Main results:

- Theorem {lit}`EpochGate.verifyRestartMode_eq_ok`: exactly which units reopen.
-/

namespace Mewtual

open Std

/-- The registry's lineage ceiling. -/
def maxRegistryEpoch : UInt64 := 4096

namespace ReceiptBook

/-- Every receipt of the book, its head first. -/
def retained (book : ReceiptBook) : List Receipt := book.latest.toList ++ book.others

variable {book : ReceiptBook}

variable {receipt held : Receipt}

theorem mem_retained :
    receipt ∈ book.retained ↔ receipt ∈ book.latest ∨ receipt ∈ book.previousUntilInstalled ∨
      ∃ pair ∈ book.fault, receipt = pair.1 ∨ receipt = pair.2 := by
  cases hfault : book.fault <;> simp [ReceiptBook.retained, ReceiptBook.others, hfault]

/-- The receipts kept by an unfaulted book with a new head. -/
theorem mem_retained_headed {previous : Option Receipt} (hfault : book.fault = none)
    (hheld : held ∈ ((book.bound receipt).headed receipt previous).retained) :
    held = receipt ∨ held ∈ previous := by
  rcases mem_retained.mp hheld with hlatest | hprior | ⟨pair, hpair, -⟩
  · exact .inl (Option.some.inj hlatest).symm
  · exact .inr hprior
  · rw [headed_fault, bound_fault, hfault] at hpair
    exact absurd hpair (Option.not_mem_none pair)

/-- The receipts kept by a book that recorded an equivocation of its head. -/
theorem mem_retained_equivocated [Crypto] {latest : Receipt}
    (hheld : held ∈ ((book.bound receipt).equivocated latest receipt).retained) :
    held = latest ∨ held = receipt ∨ held ∈ book.previousUntilInstalled := by
  rcases mem_retained.mp hheld with hlatest | hprior | ⟨pair, hpair, hmember⟩
  · have hmember := eq_canonicalReceiptPair.mp (.inl (Option.some.inj hlatest).symm)
    exact hmember.imp_right .inl
  · exact .inr (.inr hprior)
  · cases hpair
    exact (eq_canonicalReceiptPair.mp hmember).imp_right .inl

/-- The receipts kept by a book that recorded evidence beside its head. -/
theorem mem_retained_raised [Crypto] {anchor : Receipt}
    (hheld : held ∈ (book.raised anchor receipt).retained) :
    held ∈ book.retained ∨ held = anchor ∨ held = receipt := by
  rcases mem_retained.mp hheld with hlatest | hprior | ⟨pair, hpair, hmember⟩
  · exact .inl (mem_retained.mpr (.inl hlatest))
  · exact .inl (mem_retained.mpr (.inr (.inl hprior)))
  · cases hpair
    exact .inr (eq_canonicalReceiptPair.mp hmember)

/-- Different receipts of one document and tenure conflict, once their hashes identify them. -/
theorem conflict_of_differs [Crypto] {latest : Receipt}
    (hdocument : latest.document = receipt.document) (htenure : latest.tenureId = receipt.tenureId)
    (hdiffers : latest.selection ≠ receipt.selection ∨
      (latest.closedEpoch = receipt.closedEpoch ∧ latest.hash ≠ receipt.hash))
    (hidentity : latest.hash = receipt.hash → latest = receipt) :
      ReceiptsConflict latest receipt := by
  refine ⟨hdocument, htenure, fun hhash => ?_, hdiffers.symm.imp And.left id⟩
  rcases hdiffers with hselection | ⟨-, hne⟩
  · exact hselection (congrArg Receipt.selection (hidentity hhash))
  · exact hne hhash

/-! ## Adopting units -/

/-- One retained receipt of an adopting unit. The ceiling is a registry rule only. -/
def checkAdoptionReceipt [Crypto] (document : LogicalDocument) (receipt : Receipt) :
    Except ReplError Unit := do
  if receipt.document ≠ document
      ∨ (document.docType = .docRegistry ∧ maxRegistryEpoch ≤ receipt.closedEpoch) then
    throw .epochScope
  discard receipt.restoreVerifiedFromVault

/-- A retained anchor is of another tenure, repaired away, or below the head on its line. -/
def AnchorOk [Crypto] (book : ReceiptBook) (latest prior : Receipt) : Prop :=
  prior.tenureId ≠ latest.tenureId ∨ book.IsRepairedLoser prior ∨
    (prior.closedEpoch < latest.closedEpoch ∧ prior.selection = latest.selection)

instance [Crypto] (book : ReceiptBook) (latest prior : Receipt) :
    Decidable (book.AnchorOk latest prior) :=
  inferInstanceAs (Decidable (_ ∨ _))

/-- The pair is a conflict that names the head or an anchor. -/
def NamesAnchor [Crypto] (book : ReceiptBook) (opening : Option Receipt) (latest : Receipt)
    (pair : Receipt × Receipt) : Prop :=
  ReceiptsConflict pair.1 pair.2 ∧
    ∃ anchor ∈ latest :: book.anchors opening, anchor = pair.1 ∨ anchor = pair.2

instance [Crypto] (book : ReceiptBook) (opening : Option Receipt) (latest : Receipt)
    (pair : Receipt × Receipt) : Decidable (book.NamesAnchor opening latest pair) :=
  inferInstanceAs (Decidable (_ ∧ _))

/-- Head, anchors and fault evidence fit the phase of an adopting unit. -/
def AdoptionPhaseOk [Crypto] (book : ReceiptBook) (inner : EpochGateInner)
    (opening : Option Receipt) (latest : Receipt) : Prop :=
  match inner.phase with
  | .closing => book.fault = none ∧ inner.receiptHash = some latest.hash ∧
      (∀ prior ∈ book.previousUntilInstalled, book.AnchorOk latest prior) ∧
      ∀ prior ∈ opening, book.AnchorOk latest prior
  | .fault => ∃ pair ∈ book.fault, book.NamesAnchor opening latest pair
  | .opened => False
  | .settled => False

instance [Crypto] (book : ReceiptBook) (inner : EpochGateInner) (opening : Option Receipt)
    (latest : Receipt) : Decidable (book.AdoptionPhaseOk inner opening latest) :=
  match h : inner.phase with
  | .closing => decidable_of_iff (book.fault = none ∧ inner.receiptHash = some latest.hash ∧
      (∀ prior ∈ book.previousUntilInstalled, book.AnchorOk latest prior) ∧
      ∀ prior ∈ opening, book.AnchorOk latest prior) (by rw [AdoptionPhaseOk, h])
  | .fault => decidable_of_iff (∃ pair ∈ book.fault, book.NamesAnchor opening latest pair)
      (by rw [AdoptionPhaseOk, h])
  | .opened => .isFalse (by rw [AdoptionPhaseOk, h]; exact id)
  | .settled => .isFalse (by rw [AdoptionPhaseOk, h]; exact id)

/-- Additional checks for a restart of an adopting unit. -/
def verifyAdoptionState [Crypto] (book : ReceiptBook) (document : LogicalDocument)
    (inner : EpochGateInner) (opening : Option Receipt) : Except ReplError Unit :=
  match book.latest with
  | none => .error .malformed
  | some latest => do
    book.retained.forM (checkAdoptionReceipt document)
    if ¬ book.AdoptionPhaseOk inner opening latest then throw .malformed

/-! ## Ordinary units -/

/-- Delayed fault evidence on the preceding epoch that names the opening receipt itself. -/
def OpeningFault [Crypto] (book : ReceiptBook) (opening : Option Receipt) : Prop :=
  ∃ pair ∈ book.fault, (some pair.1 = opening ∨ some pair.2 = opening) ∧
    pair.1.closedEpoch = pair.2.closedEpoch ∧ ReceiptsConflict pair.1 pair.2

instance [Crypto] (book : ReceiptBook) (opening : Option Receipt) :
    Decidable (book.OpeningFault opening) :=
  inferInstanceAs (Decidable (∃ pair ∈ book.fault, _))

end ReceiptBook

namespace EpochGate

/-- The retained receipt belongs to this unit: it closes the unit's epoch, is the opening
receipt, or is a member of delayed opening evidence. -/
def BelongsTo [Crypto] (gate : EpochGate) (book : ReceiptBook) (opening : Option Receipt)
    (receipt : Receipt) : Prop :=
  receipt.document = gate.document ∧
    (receipt.closedEpoch = gate.epoch ∨ some receipt = opening ∨
      (book.OpeningFault opening ∧ ∃ pair ∈ book.fault, receipt = pair.1 ∨ receipt = pair.2))

instance [Crypto] (gate : EpochGate) (book : ReceiptBook) (opening : Option Receipt)
    (receipt : Receipt) : Decidable (gate.BelongsTo book opening receipt) :=
  inferInstanceAs (Decidable (_ ∧ _))

/-- A receipt belongs to the gate and its book, and was verified before. -/
def checkRestartReceipt [Crypto] (gate : EpochGate) (book : ReceiptBook)
    (opening : Option Receipt) (receipt : Receipt) : Except ReplError Unit := do
  if ¬ gate.BelongsTo book opening receipt then throw .epochScope
  discard receipt.restoreVerifiedFromVault

/-- The head seals this epoch and continues the opening receipt's line or another tenure. -/
def SealedBy [Crypto] (gate : EpochGate) (opening : Option Receipt) (latest : Receipt) : Prop :=
  latest.closedEpoch = gate.epoch ∧ some latest.hash = gate.inner.receiptHash ∧
    ∀ prior ∈ opening,
      prior.tenureId ≠ latest.tenureId ∨ prior.selection = latest.selection

instance [Crypto] (gate : EpochGate) (opening : Option Receipt) (latest : Receipt) :
    Decidable (gate.SealedBy opening latest) :=
  inferInstanceAs (Decidable (_ ∧ _))

/-- Head and fault evidence fit the phase of an ordinary unit. -/
def PhaseOk [Crypto] (gate : EpochGate) (book : ReceiptBook) (opening : Option Receipt) : Prop :=
  match gate.inner.phase with
  | .opened => book.fault = none ∧ book.latest = opening
  | .closing => book.fault = none ∧ ∃ latest ∈ book.latest, gate.SealedBy opening latest
  | .fault => ∃ pair ∈ book.fault, ReceiptsConflict pair.1 pair.2 ∧
      (pair.1.closedEpoch = gate.epoch ∨ pair.2.closedEpoch = gate.epoch ∨
        book.OpeningFault opening)
  | .settled => False

instance [Crypto] (gate : EpochGate) (book : ReceiptBook) (opening : Option Receipt) :
    Decidable (gate.PhaseOk book opening) :=
  match h : gate.inner.phase with
  | .opened => decidable_of_iff (book.fault = none ∧ book.latest = opening)
      (by rw [PhaseOk, h])
  | .closing => decidable_of_iff
      (book.fault = none ∧ ∃ latest ∈ book.latest, gate.SealedBy opening latest)
      (by rw [PhaseOk, h])
  | .fault => decidable_of_iff (∃ pair ∈ book.fault, ReceiptsConflict pair.1 pair.2 ∧
      (pair.1.closedEpoch = gate.epoch ∨ pair.2.closedEpoch = gate.epoch ∨
        book.OpeningFault opening)) (by rw [PhaseOk, h])
  | .settled => .isFalse (by rw [PhaseOk, h]; exact id)

/-- The accepted operations and the book belong to this gate. -/
def Matches (gate : EpochGate) (operations : List AdmittedOperation) (book : ReceiptBook) :
    Prop :=
  operations.length = gate.inner.operations.size ∧
    (∀ op ∈ operations, gate.inner.operations[op.opHash]? = some op) ∧
    ∀ document ∈ book.document, document = gate.document

instance (gate : EpochGate) (operations : List AdmittedOperation) (book : ReceiptBook) :
    Decidable (gate.Matches operations book) :=
  inferInstanceAs (Decidable (_ ∧ _))

/-- The opening receipt closes the preceding epoch; only epoch zero has none. -/
def checkOpening [Crypto] (gate : EpochGate) : Option Receipt → Except ReplError Unit
  | some receipt => do
    if receipt.document ≠ gate.document
        ∨ checkedAdd receipt.closedEpoch 1 ≠ some gate.epoch then throw .epochScope
    discard receipt.restoreVerifiedFromVault
  | none => if gate.epoch ≠ 0 then .error .epochScope else .ok ()

/-- Check the pieces of a restart unit together. -/
def verifyRestartMode [Crypto] (gate : EpochGate) (operations : List AdmittedOperation)
    (book : ReceiptBook) (opening : Option Receipt) (adoption : Bool) :
    Except ReplError Unit := do
  if ¬ gate.Matches operations book then throw .malformed
  gate.checkOpening opening
  if adoption then book.verifyAdoptionState gate.document gate.inner opening
  else do
    if book.previousUntilInstalled.any (fun receipt => decide (some receipt ≠ opening)) then
      throw .malformed
    book.retained.forM (gate.checkRestartReceipt book opening)
    if ¬ gate.PhaseOk book opening then throw .malformed

/-- Check a saved unit without an adoption. -/
def verifyRestart [Crypto] (gate : EpochGate) (operations : List AdmittedOperation)
    (book : ReceiptBook) (opening : Option Receipt) : Except ReplError Unit :=
  gate.verifyRestartMode operations book opening false

/-- Check a saved unit that is adopting a checkpoint. -/
def verifyAdoptionRestart [Crypto] (gate : EpochGate) (operations : List AdmittedOperation)
    (book : ReceiptBook) (opening : Option Receipt) : Except ReplError Unit :=
  gate.verifyRestartMode operations book opening true

/-! ## What a unit needs to reopen -/

/-- A gate's own accepted operations match it. -/
theorem matches_accepted {gate : EpochGate} {book : ReceiptBook}
    (hvalid : gate.inner.Valid)
    (hdocument : ∀ document ∈ book.document, document = gate.document) :
    gate.Matches gate.inner.accepted book := by
  refine ⟨length_treeValues _, ?_, hdocument⟩
  intro op hmem
  exact (mem_accepted hvalid.toAccounted).mp hmem

/-- What the retained opening receipt must satisfy. -/
structure OpeningOk [Crypto] (gate : EpochGate) (opening : Option Receipt) : Prop where
  held : ∀ receipt ∈ opening, receipt.document = gate.document ∧
    checkedAdd receipt.closedEpoch 1 = some gate.epoch ∧ receipt.verifySignatureOnly = .ok ()
  absent : opening = none → gate.epoch = 0

theorem checkOpening_eq_ok [Crypto] {gate : EpochGate} {opening : Option Receipt} :
    gate.checkOpening opening = .ok () ↔ gate.OpeningOk opening := by
  cases opening with
  | none =>
    rw [checkOpening, guard_eq_ok, not_not]
    exact ⟨fun h => ⟨fun receipt hmem => absurd hmem (Option.not_mem_none receipt), fun _ => h.1⟩,
      fun h => ⟨h.absent rfl, rfl⟩⟩
  | some receipt =>
    rw [checkOpening]
    constructor
    · intro hok
      rcases guard_eq_ok.mp hok with ⟨hscope, hok⟩
      simp only [not_or, not_not] at hscope
      refine ⟨?_, nofun⟩
      rintro held ⟨⟩
      exact ⟨hscope.1, hscope.2, Receipt.discard_restore.mp hok⟩
    · intro h
      rcases h.held receipt rfl with ⟨hdocument, hepoch, hsignature⟩
      rw [if_neg (by simp [hdocument, hepoch])]
      exact Receipt.discard_restore.mpr hsignature

/-- What an ordinary unit needs to reopen. -/
structure OrdinaryRestart [Crypto] (gate : EpochGate) (book : ReceiptBook)
    (opening : Option Receipt) : Prop where
  previous : ∀ receipt ∈ book.previousUntilInstalled, some receipt = opening
  retained : ∀ receipt ∈ book.retained,
    gate.BelongsTo book opening receipt ∧ receipt.verifySignatureOnly = .ok ()
  phase : gate.PhaseOk book opening

/-- What an adopting unit needs to reopen. -/
structure AdoptionRestart [Crypto] (gate : EpochGate) (book : ReceiptBook)
    (opening : Option Receipt) : Prop where
  head : ∃ latest, book.latest = some latest ∧
    book.AdoptionPhaseOk gate.inner opening latest
  retained : ∀ receipt ∈ book.retained, receipt.document = gate.document ∧
    (gate.document.docType = .docRegistry → receipt.closedEpoch < maxRegistryEpoch) ∧
    receipt.verifySignatureOnly = .ok ()

variable [Crypto] {gate : EpochGate} {book : ReceiptBook} {opening : Option Receipt}

theorem checkRestartReceipt_eq_ok {receipt : Receipt} :
    gate.checkRestartReceipt book opening receipt = .ok () ↔
      gate.BelongsTo book opening receipt ∧ receipt.verifySignatureOnly = .ok () := by
  rw [checkRestartReceipt, ← Receipt.discard_restore]
  exact guard_eq_ok.trans (and_congr_left fun _ => not_not)

theorem checkAdoptionReceipt_eq_ok {document : LogicalDocument} {receipt : Receipt} :
    ReceiptBook.checkAdoptionReceipt document receipt = .ok () ↔
      receipt.document = document ∧
        (document.docType = .docRegistry → receipt.closedEpoch < maxRegistryEpoch) ∧
        receipt.verifySignatureOnly = .ok () := by
  rw [ReceiptBook.checkAdoptionReceipt, ← Receipt.discard_restore, ← and_assoc]
  refine guard_eq_ok.trans (and_congr_left fun _ => ?_)
  simp only [not_or, not_not, not_and, UInt64.not_le]

theorem verifyAdoptionState_eq_ok :
    book.verifyAdoptionState gate.document gate.inner opening = .ok () ↔
      gate.AdoptionRestart book opening := by
  unfold ReceiptBook.verifyAdoptionState
  cases hlatest : book.latest with
  | none => exact ⟨nofun, fun h => by simpa [hlatest] using h.head⟩
  | some latest =>
    constructor
    · intro hok
      rcases bind_eq_ok.mp hok with ⟨⟨⟩, hloop, hok⟩
      refine ⟨⟨latest, hlatest, not_not.mp (guard_eq_ok.mp hok).1⟩, ?_⟩
      exact fun receipt hmem => checkAdoptionReceipt_eq_ok.mp (forM_eq_ok.mp hloop receipt hmem)
    · rintro ⟨⟨head, hhead, hphase⟩, hretained⟩
      rw [hlatest] at hhead
      cases hhead
      dsimp only
      rw [forM_eq_ok.mpr fun receipt hmem =>
        checkAdoptionReceipt_eq_ok.mpr (hretained receipt hmem), if_neg (not_not.mpr hphase)]
      rfl

/-- The restart check succeeds exactly on the units described above. -/
theorem verifyRestartMode_eq_ok {operations : List AdmittedOperation} {adoption : Bool} :
    gate.verifyRestartMode operations book opening adoption = .ok () ↔
      gate.Matches operations book ∧ gate.OpeningOk opening ∧
        if adoption then gate.AdoptionRestart book opening
        else gate.OrdinaryRestart book opening := by
  unfold verifyRestartMode
  refine guard_eq_ok.trans (and_congr not_not ?_)
  rw [← checkOpening_eq_ok]
  cases adoption with
  | true =>
    simp only [if_true]
    rw [← verifyAdoptionState_eq_ok, bind_eq_ok]
    exact ⟨fun ⟨⟨⟩, hopening, hok⟩ => ⟨hopening, hok⟩, fun h => ⟨(), h⟩⟩
  | false =>
    simp only [Bool.false_eq_true, if_false]
    rw [bind_eq_ok]
    constructor
    · rintro ⟨⟨⟩, hopening, hok⟩
      rcases guard_eq_ok.mp hok with ⟨hprevious, hok⟩
      rcases bind_eq_ok.mp hok with ⟨⟨⟩, hloop, hok⟩
      refine ⟨hopening, ?_, ?_, not_not.mp (guard_eq_ok.mp hok).1⟩
      · intro receipt hmem
        rw [Option.mem_def] at hmem
        simpa [hmem] using hprevious
      · exact fun receipt hmem =>
          checkRestartReceipt_eq_ok.mp (forM_eq_ok.mp hloop receipt hmem)
    · rintro ⟨hopening, hprevious, hretained, hphase⟩
      have hkept : ¬ (book.previousUntilInstalled.any
          (fun receipt => decide (some receipt ≠ opening)) = true) := by
        cases hheld : book.previousUntilInstalled with
        | none => simp
        | some receipt => simpa using hprevious receipt hheld
      refine ⟨(), hopening, ?_⟩
      rw [if_neg hkept, forM_eq_ok.mpr fun receipt hmem =>
        checkRestartReceipt_eq_ok.mpr (hretained receipt hmem), if_neg (not_not.mpr hphase)]
      rfl

end EpochGate

end Mewtual
