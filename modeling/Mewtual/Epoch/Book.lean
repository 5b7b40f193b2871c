import Mewtual.Epoch.Repair

/-!
# The receipt book

Constant-sized peer state for one logical document: the tenure selection, the latest
receipt, the predecessor kept until the latest checkpoint is installed, the fault
evidence, and the latest resolved repair. Every mutating operation returns its result
together with the book it leaves behind, so that what an error leaves unchanged is a
theorem and not a convention.

Main results:

- Theorem {lit}`ReceiptBook.ingestVerified_ingested`: the complete case analysis of one
  receipt against a coherent book.
-/

namespace Mewtual

/-- Result of ingesting a receipt. -/
inductive ReceiptIngest where
  | advanced
  | duplicate
  | stale
  | fault
  deriving DecidableEq, Repr

/-- Result of repair bookkeeping. -/
inductive ReceiptRepairIngest where
  | applied
  | duplicate
  deriving DecidableEq, Repr

/-- Constant-sized peer receipt state for one logical document. -/
structure ReceiptBook where
  document : Option LogicalDocument
  tenure : Option TenureSelection
  latest : Option Receipt
  previousUntilInstalled : Option Receipt
  fault : Option (Receipt × Receipt)
  repairSequence : UInt64
  resolvedRepair : Option ResolvedRepair
  deriving DecidableEq, Repr

namespace ReceiptBook

/-- {lit}`ReceiptBook::default`. -/
def empty : ReceiptBook := ⟨none, none, none, none, none, 0, none⟩

/-! ## Queries -/

/-- Whether owner equivocation has made the document read-only. -/
def isFaulted (book : ReceiptBook) : Bool := book.fault.isSome

/-- The latest signed disposition repudiates this receipt. -/
def IsRepairedLoser [Crypto] (book : ReceiptBook) (receipt : Receipt) : Prop :=
  ∃ resolved ∈ book.resolvedRepair, resolved.Covers receipt

instance [Crypto] (book : ReceiptBook) (receipt : Receipt) :
    Decidable (book.IsRepairedLoser receipt) :=
  inferInstanceAs (Decidable (∃ resolved ∈ book.resolvedRepair, _))

/-- Issuance and anti-replay high-water for one authenticated owner tenure. -/
def repairSequenceForIssuerTenure (book : ReceiptBook) (issuerTenureStart : UInt64) : UInt64 :=
  match book.resolvedRepair with
  | some resolved =>
    if resolved.repair.issuerTenureStartGroupEpoch = some issuerTenureStart then
      resolved.repair.repairSequence
    else 0
  | none => 0

/-! ## Ingestion -/

/-- The book bound to the receipt's document, as every ingestion first makes it. -/
@[simps] def bound (book : ReceiptBook) (receipt : Receipt) : ReceiptBook :=
  { book with document := some (book.document.getD receipt.document) }

/-- Record an equivocation between the given head and the receipt. -/
def withEquivocation [Crypto] (book : ReceiptBook) (prior receipt : Receipt) : ReceiptBook :=
  let evidence := canonicalReceiptPair prior receipt
  { book with latest := some evidence.1, fault := some evidence }

/-- Install a receipt above the retained head, or compare it with that head. -/
def ingestHighWater [Crypto] (book : ReceiptBook) (receipt : Receipt) :
    ReceiptIngest × ReceiptBook :=
  match book.latest with
  | some latest =>
    if latest.tenureId = receipt.tenureId then
      if latest.closedEpoch = receipt.closedEpoch then
        if latest.hash = receipt.hash then (.duplicate, book)
        else (.fault, book.withEquivocation latest receipt)
      else if latest.closedEpoch > receipt.closedEpoch then (.stale, book)
      else (.advanced,
        { book with previousUntilInstalled := some latest, latest := some receipt })
    else (.advanced,
      { book with previousUntilInstalled := some latest, latest := some receipt })
  | none => (.advanced, { book with latest := some receipt })

/-- Compare the receipt's selection with the current tenure, then with the head. -/
def ingestSelected [Crypto] (book : ReceiptBook) (receipt : Receipt) :
    ReceiptIngest × ReceiptBook :=
  match book.tenure with
  | some current =>
    if current.tenureId = receipt.selection.tenureId ∧ current ≠ receipt.selection then
      let faulted := book.withEquivocation (book.latest.getD receipt) receipt
      (.fault, { faulted with tenure := faulted.latest.map Receipt.selection })
    else if current.tenureId ≠ receipt.selection.tenureId then
      ingestHighWater { book with
        previousUntilInstalled := book.latest
        latest := none
        tenure := some receipt.selection } receipt
    else ingestHighWater book receipt
  | none => ingestHighWater { book with tenure := some receipt.selection } receipt

/-- Ingest an already verified receipt. -/
def ingestVerified [Crypto] (book : ReceiptBook) (receipt : Receipt) :
    Except ReplError ReceiptIngest × ReceiptBook :=
  if book.document.any (fun document => decide (document ≠ receipt.document)) then
    (.error .epochScope, book)
  else
    let book := book.bound receipt
    -- A fault is terminal until a signed repair, and a repudiated receipt never competes.
    if book.fault.isSome then (.ok .fault, book)
    else if book.IsRepairedLoser receipt then (.ok .stale, book)
    else
      let (outcome, next) := book.ingestSelected receipt
      (.ok outcome, next)

/-- Drop the predecessor once the latest checkpoint is durably installed. -/
@[simps] def markLatestInstalled (book : ReceiptBook) : ReceiptBook :=
  { book with previousUntilInstalled := none }

/-! ## The case analysis of one receipt -/

/-- The tenure is the selection of the latest receipt, which belongs to the book's document. -/
structure Coherent (book : ReceiptBook) : Prop where
  tenure : book.tenure = book.latest.map Receipt.selection
  document : ∀ latest ∈ book.latest, book.document = some latest.document

/-- The book whose head is the given receipt. -/
@[simps] def headed (book : ReceiptBook) (receipt : Receipt) (previous : Option Receipt) :
    ReceiptBook :=
  { book with
    tenure := some receipt.selection
    latest := some receipt
    previousUntilInstalled := previous }

/-- The book that records the receipt as an equivocation of its head. -/
@[simps] def equivocated [Crypto] (book : ReceiptBook) (latest receipt : Receipt) : ReceiptBook :=
  { book with
    tenure := some (canonicalReceiptPair latest receipt).1.selection
    latest := some (canonicalReceiptPair latest receipt).1
    fault := some (canonicalReceiptPair latest receipt) }

/-- What one receipt of the book's document does to a book whose tenure is its head's. -/
inductive Ingested [Crypto] (book : ReceiptBook) (receipt : Receipt) :
    ReceiptIngest → ReceiptBook → Prop where
  | faulted (hfault : book.fault ≠ none) : Ingested book receipt .fault (book.bound receipt)
  | screened (hfault : book.fault = none) (hloser : book.IsRepairedLoser receipt) :
      Ingested book receipt .stale (book.bound receipt)
  | first (hfault : book.fault = none) (hloser : ¬ book.IsRepairedLoser receipt)
      (hlatest : book.latest = none) :
      Ingested book receipt .advanced
        ((book.bound receipt).headed receipt book.previousUntilInstalled)
  | succession {latest : Receipt} (hfault : book.fault = none)
      (hloser : ¬ book.IsRepairedLoser receipt) (hlatest : book.latest = some latest)
      (htenure : latest.tenureId ≠ receipt.tenureId) :
      Ingested book receipt .advanced ((book.bound receipt).headed receipt (some latest))
  | equivocation {latest : Receipt} (hfault : book.fault = none)
      (hloser : ¬ book.IsRepairedLoser receipt) (hlatest : book.latest = some latest)
      (htenure : latest.tenureId = receipt.tenureId)
      (hconflict : latest.selection ≠ receipt.selection ∨
        (latest.closedEpoch = receipt.closedEpoch ∧ latest.hash ≠ receipt.hash)) :
      Ingested book receipt .fault ((book.bound receipt).equivocated latest receipt)
  | duplicate {latest : Receipt} (hfault : book.fault = none)
      (hloser : ¬ book.IsRepairedLoser receipt) (hlatest : book.latest = some latest)
      (hselection : latest.selection = receipt.selection)
      (hclosed : latest.closedEpoch = receipt.closedEpoch)
      (hhash : latest.hash = receipt.hash) :
      Ingested book receipt .duplicate (book.bound receipt)
  | stale {latest : Receipt} (hfault : book.fault = none)
      (hloser : ¬ book.IsRepairedLoser receipt) (hlatest : book.latest = some latest)
      (hselection : latest.selection = receipt.selection)
      (hclosed : receipt.closedEpoch < latest.closedEpoch) :
      Ingested book receipt .stale (book.bound receipt)
  | advance {latest : Receipt} (hfault : book.fault = none)
      (hloser : ¬ book.IsRepairedLoser receipt) (hlatest : book.latest = some latest)
      (hselection : latest.selection = receipt.selection)
      (hclosed : latest.closedEpoch < receipt.closedEpoch) :
      Ingested book receipt .advanced ((book.bound receipt).headed receipt (some latest))

variable {book : ReceiptBook} {receipt : Receipt}

theorem withEquivocation_eq [Crypto] {latest : Receipt}
    (htenure : book.tenure = some latest.selection)
    (hselection : latest.selection = receipt.selection) :
    book.withEquivocation latest receipt = book.equivocated latest receipt := by
  have hsame : some (canonicalReceiptPair latest receipt).1.selection = book.tenure := by
    rw [htenure]
    rcases canonicalReceiptPair_cases latest receipt with heq | heq
    · rw [heq]
    · rw [heq, hselection]
  rw [equivocated, hsame]
  rfl

/-- The book takes exactly one of the listed steps on an unscreened receipt. -/
theorem ingestSelected_ingested [Crypto]
    (hselects : book.tenure = book.latest.map Receipt.selection) (hfault : book.fault = none)
    (hloser : ¬ book.IsRepairedLoser receipt) :
    Ingested book receipt ((book.bound receipt).ingestSelected receipt).1
      ((book.bound receipt).ingestSelected receipt).2 := by
  have htenure : (book.bound receipt).tenure = book.latest.map Receipt.selection := hselects
  cases hlatest : book.latest with
  | none =>
    rw [hlatest] at htenure
    have hhead : (book.bound receipt).latest = none := hlatest
    simp only [ingestSelected, htenure, Option.map_none, ingestHighWater, hhead]
    exact .first hfault hloser hlatest
  | some latest =>
    rw [hlatest, Option.map_some] at htenure
    have hhead : (book.bound receipt).latest = some latest := hlatest
    simp only [ingestSelected, htenure, hhead]
    by_cases hid : latest.tenureId = receipt.tenureId
    · have hid' : latest.selection.tenureId = receipt.selection.tenureId := hid
      by_cases hselection : latest.selection = receipt.selection
      · rw [if_neg (fun h => h.2 hselection), if_neg (not_not.mpr hid')]
        simp only [ingestHighWater, hhead]
        rw [if_pos hid]
        by_cases hclosed : latest.closedEpoch = receipt.closedEpoch
        · rw [if_pos hclosed]
          by_cases hhash : latest.hash = receipt.hash
          · rw [if_pos hhash]
            exact .duplicate hfault hloser hlatest hselection hclosed hhash
          · rw [if_neg hhash]
            rw [withEquivocation_eq htenure hselection]
            exact .equivocation hfault hloser hlatest hid (.inr ⟨hclosed, hhash⟩)
        · rw [if_neg hclosed]
          by_cases hstale : latest.closedEpoch > receipt.closedEpoch
          · rw [if_pos hstale]
            exact .stale hfault hloser hlatest hselection hstale
          · rw [if_neg hstale]
            have hlt : latest.closedEpoch < receipt.closedEpoch :=
              UInt64.lt_of_le_of_ne (UInt64.not_lt.mp hstale) hclosed
            have hstep := Ingested.advance hfault hloser hlatest hselection hlt
            rw [headed, ← hselection, ← htenure] at hstep
            exact hstep
      · rw [if_pos ⟨hid', hselection⟩]
        exact .equivocation hfault hloser hlatest hid (.inl hselection)
    · have hid' : latest.selection.tenureId ≠ receipt.selection.tenureId := hid
      rw [if_neg (fun h => hid' h.1), if_pos hid']
      exact .succession hfault hloser hlatest hid

/-- The complete case analysis of one receipt. -/
theorem ingestVerified_ingested [Crypto] {outcome : ReceiptIngest}
    (hselects : book.tenure = book.latest.map Receipt.selection)
    (hok : (book.ingestVerified receipt).1 = .ok outcome) :
    (book.document = none ∨ book.document = some receipt.document) ∧
      Ingested book receipt outcome (book.ingestVerified receipt).2 := by
  unfold ingestVerified at hok ⊢
  split at hok
  · cases hok
  · rename_i hscope
    have hdocument : book.document = none ∨ book.document = some receipt.document := by
      cases hdoc : book.document with
      | none => exact .inl rfl
      | some document =>
        rw [hdoc] at hscope
        simp only [Option.any_some, decide_eq_true_eq, ne_eq, not_not] at hscope
        exact .inr (by rw [hscope])
    refine ⟨hdocument, ?_⟩
    rw [if_neg hscope]
    dsimp only at hok ⊢
    split at hok <;> rename_i hfault
    · rw [if_pos hfault]
      cases hok
      exact .faulted (fun h => by simp [bound, h] at hfault)
    · have hnone : book.fault = none := by simpa [bound] using hfault
      rw [if_neg hfault]
      split at hok <;> rename_i hloser
      · rw [if_pos hloser]
        cases hok
        exact .screened hnone hloser
      · rw [if_neg hloser]
        cases hok
        exact ingestSelected_ingested hselects hnone hloser

theorem bound_document_eq (hscope : book.document = none ∨ book.document = some receipt.document) :
    (book.bound receipt).document = some receipt.document := by
  rcases hscope with h | h <;> simp [h]

/-- Binding a book that already holds a head changes nothing. -/
theorem Coherent.bound_eq (hcoherent : book.Coherent) {latest : Receipt}
    (hlatest : book.latest = some latest) (receipt : Receipt) : book.bound receipt = book := by
  have hdocument := hcoherent.document latest hlatest
  cases book
  simp only at hdocument
  simp [bound, hdocument]

/-! ## Repair bookkeeping -/

/-- The book after a repair selected one side of its fault. -/
@[simps] def repaired (book : ReceiptBook) (repair : ReceiptRepair) (selected losing : Receipt) :
    ReceiptBook where
  document := book.document
  tenure := some selected.selection
  latest := some selected
  previousUntilInstalled := none
  fault := none
  repairSequence := repair.repairSequence
  resolvedRepair := some ⟨repair, selected, losing⟩

/-- Split the fault pair by the repair's selection. -/
def splitSelected [Crypto] (repair : ReceiptRepair) (a b : Receipt) :
    Option (Receipt × Receipt) :=
  if a.hash = repair.selectedReceiptHash then some (a, b)
  else if b.hash = repair.selectedReceiptHash then some (b, a)
  else none

/-- Update receipt bookkeeping once the losing checkpoint is held as recovery evidence. -/
def applyRepair [Crypto] (book : ReceiptBook) (repair : ReceiptRepair) (group : OwnerAuthority)
    (expectedIssuerTenureStart : UInt64) :
    Except ReplError (ReceiptRepairIngest × Receipt) × ReceiptBook :=
  match repair.verifyCurrentOwner group expectedIssuerTenureStart with
  | .error error => (.error error, book)
  | .ok () =>
    match book.resolvedRepair.filter
        (fun resolved => decide (resolved.repair = repair) && book.fault.isNone) with
    | some resolved => (.ok (.duplicate, resolved.losing), book)
    | none =>
      match book.fault with
      | none => (.error .receiptConflict, book)
      | some (a, b) =>
        match a.restoreVerifiedFromVault, b.restoreVerifiedFromVault with
        | .error error, _ => (.error error, book)
        | .ok _, .error error => (.error error, book)
        | .ok _, .ok _ =>
          if repair.document ≠ a.document ∨ repair.document ≠ b.document
              ∨ repair.tenureId ≠ a.tenureId ∨ repair.tenureId ≠ b.tenureId
              ∨ repair.repairSequence
                ≤ book.repairSequenceForIssuerTenure expectedIssuerTenureStart
              ∨ sortedPair a.hash b.hash ≠ repair.receiptHashes then
            (.error .receiptConflict, book)
          else
            match splitSelected repair a b with
            | none => (.error .receiptConflict, book)
            | some (selected, losing) =>
              (.ok (.applied, losing), book.repaired repair selected losing)

end ReceiptBook

end Mewtual
