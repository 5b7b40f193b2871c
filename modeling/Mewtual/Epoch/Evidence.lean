import Mewtual.Epoch.Screening

/-!
# Fault evidence

The two receipts of an equivocation are recorded in the order of their hashes, so that the
evidence does not depend on which of them arrived first. Over whole runs, with repairs and
restarts among the operations, every recorded pair stays a hash-ordered conflict.

Main results:

- Theorem {lit}`ReceiptBook.fault_evidence_canonical`: delivery order does not matter, a
  fault is terminal, and every reachable pair is a hash-ordered conflict.
-/

namespace Mewtual

namespace ReceiptBook

/-! ## Both delivery orders -/

/-- The predecessor that an advancing receipt leaves behind. -/
def displaced (book : ReceiptBook) : Option Receipt :=
  match book.latest with
  | some latest => some latest
  | none => book.previousUntilInstalled

variable {book : ReceiptBook}

/-- A receipt that advances the book becomes its head. -/
theorem advanced_eq [Crypto] {receipt : Receipt}
    (hselects : book.tenure = book.latest.map Receipt.selection)
    (hadvanced : (book.ingestVerified receipt).1 = .ok .advanced) :
    ¬ book.IsRepairedLoser receipt ∧ (book.bound receipt).document = some receipt.document ∧
      (book.ingestVerified receipt).2 = (book.bound receipt).headed receipt book.displaced := by
  rcases ingestVerified_ingested hselects hadvanced with ⟨hscope, hingested⟩
  generalize (book.ingestVerified receipt).2 = next at hingested
  have hdocument := bound_document_eq hscope
  cases hingested with
  | first hfault hloser hlatest => exact ⟨hloser, hdocument, by rw [displaced, hlatest]⟩
  | succession hfault hloser hlatest => exact ⟨hloser, hdocument, by rw [displaced, hlatest]⟩
  | advance hfault hloser hlatest => exact ⟨hloser, hdocument, by rw [displaced, hlatest]⟩

/-- A receipt that conflicts with the head raises a fault against it. -/
theorem ingestVerified_conflict [Crypto] {head receipt : Receipt}
    (htenure : book.tenure = some head.selection) (hlatest : book.latest = some head)
    (hdocument : book.document = some head.document) (hfault : book.fault = none)
    (hloser : ¬ book.IsRepairedLoser receipt) (hconflict : ReceiptsConflict head receipt) :
    book.ingestVerified receipt = (.ok .fault, book.equivocated head receipt) := by
  have hselects : book.tenure = book.latest.map Receipt.selection := by
    rw [htenure, hlatest, Option.map_some]
  have hcoherent : book.Coherent := by
    refine ⟨hselects, ?_⟩
    intro latest hmem
    rw [hlatest] at hmem
    cases hmem
    exact hdocument
  have hbound : book.bound receipt = book := hcoherent.bound_eq hlatest receipt
  have hscope : ¬ book.document.any (fun document => decide (document ≠ receipt.document))
      = true := by
    simp [hdocument, hconflict.1]
  have hingested := ingestSelected_ingested hselects hfault hloser
  rw [hbound] at hingested
  rw [ingestVerified, if_neg hscope]
  dsimp only
  rw [hbound, hfault, if_neg (by simp), if_neg hloser]
  generalize book.ingestSelected receipt = step at hingested ⊢
  rcases step with ⟨outcome, next⟩
  have hepoch (hselection : head.selection = receipt.selection) :
      head.closedEpoch = receipt.closedEpoch :=
        hconflict.2.2.2.resolve_right (not_not.mpr hselection)
  -- Everything but an equivocation contradicts the conflict with the head.
  cases hingested with
  | faulted hheld => exact absurd hfault hheld
  | screened _ hheld => exact absurd hheld hloser
  | first _ _ hnone => simp [hlatest] at hnone
  | succession _ _ hheld htenures =>
    rw [hlatest, Option.some.injEq] at hheld
    exact absurd (hheld ▸ hconflict.2.1) htenures
  | equivocation _ _ hheld =>
    rw [hlatest, Option.some.injEq] at hheld
    rw [hheld, hbound]
    rfl
  | duplicate _ _ hheld _ _ hhash =>
    rw [hlatest, Option.some.injEq] at hheld
    exact absurd (hheld ▸ hhash) hconflict.2.2.1
  | stale _ _ hheld hselection hclosed | advance _ _ hheld hselection hclosed =>
    rw [hlatest, Option.some.injEq] at hheld
    subst hheld
    exact absurd (hepoch hselection ▸ hclosed) (UInt64.lt_irrefl _)

/-- The book that two conflicting receipts leave, whichever came first. -/
def evidenced [Crypto] (book : ReceiptBook) (first second : Receipt) : ReceiptBook :=
  ((book.bound first).headed first book.displaced).equivocated first second

theorem ingest_advanced_conflict [Crypto] {first second : Receipt}
    (hselects : book.tenure = book.latest.map Receipt.selection) (hfault : book.fault = none)
    (hconflict : ReceiptsConflict first second)
    (hfirst : (book.ingestVerified first).1 = .ok .advanced)
    (hsecond : (book.ingestVerified second).1 = .ok .advanced) :
    (book.ingestVerified first).2.ingestVerified second
      = (.ok .fault, book.evidenced first second) := by
  rcases advanced_eq hselects hfirst with ⟨-, hdocument, heq⟩
  rcases advanced_eq hselects hsecond with ⟨hloser, -, -⟩
  rw [heq]
  exact ingestVerified_conflict rfl rfl hdocument hfault hloser hconflict

theorem evidenced_comm [Crypto] (book : ReceiptBook) {first second : Receipt}
    (hconflict : ReceiptsConflict first second) :
    book.evidenced first second = book.evidenced second first := by
  simp only [evidenced, equivocated, headed, bound, hconflict.1,
    canonicalReceiptPair_comm hconflict.2.2.1]

/-! ## A fault is terminal -/

theorem ingestVerified_of_faulted [Crypto] (hfault : book.fault ≠ none)
    (hdocument : book.document ≠ none) (receipt : Receipt) :
    (book.ingestVerified receipt).2 = book := by
  rcases Option.ne_none_iff_exists'.mp hdocument with ⟨document, hdocument⟩
  have hbound : book.bound receipt = book := by
    cases book
    simp only at hdocument
    simp [bound, hdocument]
  unfold ingestVerified
  split
  · rfl
  · dsimp only
    rw [hbound, if_pos (Option.isSome_iff_ne_none.mpr hfault)]

theorem ingestVerified_fault [Crypto] {receipt : Receipt}
    (hselects : book.tenure = book.latest.map Receipt.selection)
    (hok : (book.ingestVerified receipt).1 = .ok .fault) :
    (book.ingestVerified receipt).2.fault ≠ none ∧
      (book.ingestVerified receipt).2.document ≠ none := by
  rcases ingestVerified_ingested hselects hok with ⟨-, hingested⟩
  generalize (book.ingestVerified receipt).2 = next at hingested
  cases hingested with
  | faulted hfault => exact ⟨hfault, by simp⟩
  | equivocation => exact ⟨by simp, by simp⟩

/-! ## Every operation on the book of one document -/

/-- The delivery beside a gate of the given document. -/
def Delivery.within (document : LogicalDocument) : Delivery → Delivery
  | .ingestAndSeal receipt group tenureStart gate =>
    .ingestAndSeal receipt group tenureStart { gate with document := document }
  | .checkOpening receipt opening group tenureStart gate =>
    .checkOpening receipt opening group tenureStart { gate with document := document }
  | .ingestAdoption receipt group tenureStart gate opening =>
    .ingestAdoption receipt group tenureStart { gate with document := document } opening
  | .markLatestInstalled => .markLatestInstalled
  | .restart adopting => .restart adopting

/-- One operation on the book: a delivery, the bookkeeping of a repair, or the application of
a repair to a source that holds the book. -/
inductive Operation where
  | deliver (delivery : Delivery)
  | applyRepair (repair : ReceiptRepair) (group : OwnerAuthority) (issuerTenure : UInt64)
  | repairSource (context : RepairSource) (repair : ReceiptRepair) (a b : Receipt)
      (group : OwnerAuthority) (issuerTenure : UInt64)

/-- The source that holds the book of a document, in the context the operation gives. -/
def holding (document : LogicalDocument) (context : RepairSource) (book : ReceiptBook) :
    RepairSource :=
  { context with
    document := document
    gate := { context.gate with document := document }
    book := book }

/-- The book of a document after an operation. -/
def operate [Crypto] (document : LogicalDocument) (book : ReceiptBook) : Operation → ReceiptBook
  | .deliver delivery => book.deliver (delivery.within document)
  | .applyRepair repair group issuerTenure => (book.applyRepair repair group issuerTenure).2
  | .repairSource context repair a b group issuerTenure =>
    ((holding document context book).apply repair a b group issuerTenure).2.book

/-- The receipts an operation brings along. -/
def Operation.supplied : Operation → List Receipt
  | .deliver (.ingestAndSeal receipt _ _ _) => [receipt]
  | .deliver (.checkOpening receipt opening _ _ _) => [receipt, opening]
  | .deliver (.ingestAdoption receipt _ _ _ opening) => receipt :: opening.toList
  | .deliver _ => []
  | .applyRepair _ _ _ => []
  | .repairSource context _ a b _ _ => a :: b :: context.opening.toList

/-- What every reachable book of a document satisfies. -/
structure Evidenced [Crypto] (document : LogicalDocument) (receipts : Set Receipt)
    (book : ReceiptBook) : Prop where
  selects : book.tenure = book.latest.map Receipt.selection
  head : ∀ latest ∈ book.latest, latest.document = document ∧ latest.SelfConsistent
  known : ∀ held ∈ book.retained, held ∈ receipts
  fault : ∀ pair ∈ book.fault, pair.1.document = document ∧ pair.1.hash < pair.2.hash ∧
    ReceiptsConflict pair.1 pair.2

section Operations

variable [Crypto] {document : LogicalDocument} {receipts : Set Receipt} {book next : ReceiptBook}

theorem Evidenced.empty (document : LogicalDocument) (receipts : Set Receipt) :
    Evidenced document receipts ReceiptBook.empty where
  selects := rfl
  head := forall_mem_none
  known := by
    intro held hmem
    rw [mem_retained] at hmem
    rcases hmem with h | h | ⟨pair, h, -⟩ <;> cases h
  fault := forall_mem_none

/-- A hash-ordered pair of conflicting receipts of the document. -/
theorem canonicalReceiptPair_evidence {prior receipt : Receipt}
    (hconflict : ReceiptsConflict prior receipt) (hdocument : receipt.document = document) :
    (canonicalReceiptPair prior receipt).1.document = document ∧
      (canonicalReceiptPair prior receipt).1.hash < (canonicalReceiptPair prior receipt).2.hash ∧
      ReceiptsConflict (canonicalReceiptPair prior receipt).1
        (canonicalReceiptPair prior receipt).2 := by
  refine ⟨?_, canonicalReceiptPair_lt hconflict.2.2.1, canonicalReceiptPair_conflict hconflict⟩
  rcases canonicalReceiptPair_cases prior receipt with heq | heq
  · rw [heq, hconflict.1, hdocument]
  · rw [heq, hdocument]

/-- A verified receipt passed its own consistency checks. -/
theorem selfConsistent_of_verified {receipt : Receipt} {group : OwnerAuthority}
    {tenureStart : UInt64} {verified : VerifiedReceipt}
    (hverified : receipt.verifyCurrentOwner group tenureStart = .ok verified) :
    receipt.SelfConsistent :=
  Receipt.verifySignatureOnly_selfConsistent
    (Receipt.verifyCurrentOwner_eq_ok hverified).2.2.2.2

/-- The receipts of a planned candidate belong to the gate's document and verify. -/
theorem planned_retained {source : RepairSource} {candidate : RepairCandidate}
    (hchecked : source.Checked candidate) :
    ∀ held ∈ candidate.book.retained,
      held.document = source.gate.document ∧ held.verifySignatureOnly = .ok () := by
  rcases EpochGate.verifyRestartMode_eq_ok.mp hchecked.restart with ⟨-, -, hrestart⟩
  intro held hmem
  split at hrestart
  · rcases hrestart.retained held hmem with ⟨hdocument, -, hsignature⟩
    exact ⟨hdocument, hsignature⟩
  · rcases hrestart.retained held hmem with ⟨hbelongs, hsignature⟩
    exact ⟨hbelongs.1, hsignature⟩

variable (h : Evidenced document receipts book)

include h

/-- A fault raised beside the head. -/
theorem Evidenced.raised {prior receipt : Receipt} (hprior : prior ∈ receipts)
    (hreceipt : receipt ∈ receipts) (hdocument : receipt.document = document)
    (hconflict : ReceiptsConflict prior receipt) :
    Evidenced document receipts (book.raised prior receipt) := { h with
  known := by
    intro held hmem
    rcases mem_retained_raised hmem with hold | rfl | rfl
    · exact h.known held hold
    · exact hprior
    · exact hreceipt
  fault := by
    intro pair hpair
    cases hpair
    exact canonicalReceiptPair_evidence hconflict hdocument }

/-- One ingested receipt of the document keeps the evidence canonical. -/
theorem Evidenced.ingested (hfree : Receipt.CollisionFree receipts) {receipt : Receipt}
    {outcome : ReceiptIngest}
    (hreceipt : receipt ∈ receipts) (hdocument : receipt.document = document)
    (hself : receipt.SelfConsistent) (hingested : Ingested book receipt outcome next) :
    Evidenced document receipts next := by
  have hheaded (previous : Option Receipt) (hprevious : ∀ held ∈ previous, held ∈ receipts)
      (hfault : book.fault = none) :
      Evidenced document receipts ((book.bound receipt).headed receipt previous) := by
    refine ⟨rfl, ?_, ?_, ?_⟩
    · intro latest hmem
      cases hmem
      exact ⟨hdocument, hself⟩
    · intro held hmem
      rcases mem_retained_headed hfault hmem with rfl | hheld
      · exact hreceipt
      · exact hprevious held hheld
    · intro pair hpair
      rw [headed_fault, bound_fault, hfault] at hpair
      cases hpair
  have hlatest {latest : Receipt} (heq : book.latest = some latest) : latest ∈ receipts :=
    h.known latest (mem_retained.mpr (.inl heq))
  cases hingested with
  | faulted | screened | duplicate | stale => exact ⟨h.selects, h.head, h.known, h.fault⟩
  | first hfault =>
    refine hheaded _ ?_ hfault
    exact fun held hmem => h.known held (mem_retained.mpr (.inr (.inl hmem)))
  | succession hfault _ heq | advance hfault _ heq =>
    refine hheaded _ ?_ hfault
    intro held hmem
    cases hmem
    exact hlatest heq
  | @equivocation latest hfault _ heq htenure hdiffer =>
    rcases h.head latest heq with ⟨hheadDocument, hheadSelf⟩
    have hconflict : ReceiptsConflict latest receipt :=
      conflict_of_differs (hheadDocument.trans hdocument.symm) htenure hdiffer
        (Receipt.hash_inj hfree (hlatest heq) hreceipt hheadSelf hself)
    refine ⟨rfl, ?_, ?_, ?_⟩
    · intro held hmem
      cases hmem
      rcases canonicalReceiptPair_cases latest receipt with hpair | hpair
      · rw [hpair]
        exact ⟨hheadDocument, hheadSelf⟩
      · rw [hpair]
        exact ⟨hdocument, hself⟩
    · intro held hmem
      rcases mem_retained_equivocated hmem with rfl | rfl | hprevious
      · exact hlatest heq
      · exact hreceipt
      · exact h.known held (mem_retained.mpr (.inr (.inl hprevious)))
    · intro pair hpair
      cases hpair
      exact canonicalReceiptPair_evidence hconflict hdocument

theorem Evidenced.markLatestInstalled :
    Evidenced document receipts book.markLatestInstalled := { h with
  known := by
    intro held hmem
    rcases mem_retained.mp hmem with hlatest | hprevious | hfault
    · exact h.known held (mem_retained.mpr (.inl hlatest))
    · cases hprevious
    · exact h.known held (mem_retained.mpr (.inr (.inr hfault))) }

theorem Evidenced.deliver (hfree : Receipt.CollisionFree receipts) {delivery : Delivery}
    (hsupplied : ∀ receipt ∈ (Operation.deliver delivery).supplied, receipt ∈ receipts) :
    Evidenced document receipts (book.deliver (delivery.within document)) := by
  cases delivery with
  | ingestAndSeal receipt group tenureStart gate =>
    rw [Delivery.within, ReceiptBook.deliver]
    rcases book.ingestAndSeal_spec receipt group tenureStart
      { gate with document := document } with
      ⟨error, heq⟩ | ⟨verified, outcome, next, inner, hverified, -, hdocument, hingest, -, heq⟩
    · rw [heq]
      exact h
    · rw [heq]
      have hok : (book.ingestVerified receipt).1 = .ok outcome := by rw [hingest]
      have hingested := (ingestVerified_ingested h.selects hok).2
      rw [hingest] at hingested
      exact h.ingested hfree (hsupplied receipt List.mem_cons_self) hdocument
        (selfConsistent_of_verified hverified) hingested
  | checkOpening receipt opening group tenureStart gate =>
    rw [Delivery.within, ReceiptBook.deliver]
    rcases book.checkOpeningReceipt_spec receipt opening group tenureStart
      { gate with document := document } with
      ⟨error, heq⟩ | ⟨verified, outcome, gate', next, -, hdocument, -, -, hchecked, heq⟩
    · rw [heq]
      exact h
    · rw [heq]
      cases hchecked with
      | faulted | screened | duplicate => exact h
      | raises _ _ _ hconflict =>
        exact h.raised (hsupplied opening (by simp [Operation.supplied]))
          (hsupplied receipt List.mem_cons_self) hdocument hconflict
  | ingestAdoption receipt group tenureStart gate opening =>
    rw [Delivery.within, ReceiptBook.deliver]
    have hreceipt : receipt ∈ receipts := hsupplied receipt List.mem_cons_self
    rcases ingestAdoption_spec h.selects receipt group tenureStart
      { gate with document := document } opening with
      ⟨error, heq⟩ | ⟨verified, outcome, gate', next, hverified, hdocument, -, hadopted, heq⟩
    · rw [heq]
      exact h
    · rw [heq]
      have hself := selfConsistent_of_verified hverified
      cases hadopted with
      | faulted | screened | stale => exact h
      | @raises prior _ _ hprior hexposes =>
        refine h.raised ?_ hreceipt hdocument hexposes.1
        rcases List.mem_append.mp hprior with hopening | hprevious
        · exact hsupplied prior (List.mem_cons_of_mem _ hopening)
        · exact h.known prior
            (mem_retained.mpr (.inr (.inl (Option.mem_toList.mp hprevious))))
      | equivocates _ _ _ hingested | selects _ _ _ hingested =>
        exact h.ingested hfree hreceipt hdocument hself hingested
  | markLatestInstalled => exact h.markLatestInstalled
  | restart adopting =>
    rw [Delivery.within, ReceiptBook.deliver]
    split <;> rename_i hrestored
    · rcases bind_eq_ok.mp hrestored with ⟨saved, hsaved, hdecode⟩
      rcases eq_of_decodeMode hsaved hdecode with ⟨rfl, -⟩
      exact ⟨h.selects, h.head, h.known, h.fault⟩
    · exact h

/-- The bookkeeping of a repair selects one side of the fault. -/
theorem Evidenced.applyRepair (repair : ReceiptRepair) (group : OwnerAuthority)
    (issuerTenure : UInt64) :
    Evidenced document receipts (book.applyRepair repair group issuerTenure).2 := by
  rcases RepairSource.applyRepair_spec book repair group issuerTenure with
    ⟨error, heq⟩ | ⟨losing, -, heq⟩ | ⟨a, b, selected, losing, hfault, ha, hb, hsplit, heq⟩
  · rw [heq]
    exact h
  · rw [heq]
    exact h
  · rw [heq]
    rcases h.fault (a, b) hfault with ⟨hdocument, -, hconflict⟩
    have hselected : (selected = a ∨ selected = b) := by
      unfold splitSelected at hsplit
      split at hsplit
      · cases hsplit
        exact .inl rfl
      · split at hsplit
        · cases hsplit
          exact .inr rfl
        · cases hsplit
    refine ⟨rfl, ?_, ?_, forall_mem_none⟩
    · intro latest hmem
      cases hmem
      rcases hselected with rfl | rfl
      · exact ⟨hdocument, Receipt.verifySignatureOnly_selfConsistent ha⟩
      · exact ⟨hconflict.1.symm.trans hdocument,
          Receipt.verifySignatureOnly_selfConsistent hb⟩
    · intro held hmem
      rcases mem_retained.mp hmem with hlatest | hprevious | ⟨pair, hpair, -⟩
      · cases hlatest
        exact h.known selected (mem_retained.mpr (.inr (.inr ⟨(a, b), hfault, hselected⟩)))
      · cases hprevious
      · cases hpair

/-- The application of a repair to a source that holds the book. -/
theorem Evidenced.repairSource {context : RepairSource} {repair : ReceiptRepair} {a b : Receipt}
    {group : OwnerAuthority} {issuerTenure : UInt64}
    (hsupplied : ∀ receipt ∈ (Operation.repairSource context repair a b group
      issuerTenure).supplied, receipt ∈ receipts) :
    Evidenced document receipts
      ((holding document context book).apply repair a b group issuerTenure).2.book := by
  rcases RepairSource.apply_spec (holding document context book) repair a b group issuerTenure
    with ⟨result, -, heq⟩ | ⟨candidate, hplanned, heq⟩
  · rw [heq]
    exact h
  · rw [heq]
    have hretained := planned_retained hplanned.toChecked
    rcases hplanned.reread with ⟨encoded, restored, hencoded, hdecode⟩
    rcases eq_of_decodeMode hencoded hdecode with ⟨rfl, hrechecked⟩
    refine ⟨hrechecked.tenure, ?_, ?_, ?_⟩
    · intro latest hmem
      rcases hretained latest (mem_retained.mpr (.inl hmem)) with ⟨hdocument, hsignature⟩
      exact ⟨hdocument, Receipt.verifySignatureOnly_selfConsistent hsignature⟩
    · intro held hmem
      rcases mem_retained.mp hmem with hlatest | hprevious | ⟨pair, hpair, hside⟩
      · rcases hplanned.latest held hlatest with hopening | hheld | hleft | hright
        · exact hsupplied held (by simpa [Operation.supplied] using .inr (.inr hopening))
        · exact h.known held (mem_retained.mpr (.inl hheld))
        · exact hsupplied held (by simp [Operation.supplied, hleft])
        · exact hsupplied held (by simp [Operation.supplied, hright])
      · exact h.known held
          (mem_retained.mpr (.inr (.inl (hplanned.previous held hprevious))))
      · rcases hplanned.fault with hnone | hsame
        · rw [RepairSource.installed_book, hnone] at hpair
          cases hpair
        · rw [RepairSource.installed_book, hsame] at hpair
          exact h.known held (mem_retained.mpr (.inr (.inr ⟨pair, hpair, hside⟩)))
    · intro pair hpair
      rcases hplanned.fault with hnone | hsame
      · rw [RepairSource.installed_book, hnone] at hpair
        cases hpair
      · rw [RepairSource.installed_book, hsame] at hpair
        exact h.fault pair hpair

/-- Every operation keeps the evidence canonical. -/
theorem Evidenced.operate (hfree : Receipt.CollisionFree receipts) {operation : Operation}
    (hsupplied : ∀ receipt ∈ operation.supplied, receipt ∈ receipts) :
    Evidenced document receipts (operate document book operation) := by
  cases operation with
  | deliver delivery => exact h.deliver hfree hsupplied
  | applyRepair repair group issuerTenure => exact h.applyRepair repair group issuerTenure
  | repairSource context repair a b group issuerTenure => exact h.repairSource hsupplied

omit h in
/-- Every book a run reaches holds canonical evidence. -/
theorem run_evidenced (document : LogicalDocument) (hfree : Receipt.CollisionFree receipts)
    {operations : List Operation}
    (hsupplied : ∀ operation ∈ operations, ∀ receipt ∈ operation.supplied, receipt ∈ receipts) :
    Evidenced document receipts (run (operate document) ReceiptBook.empty operations) := by
  refine run_induction (fun operations => ∀ operation ∈ operations,
    ∀ receipt ∈ operation.supplied, receipt ∈ receipts)
    (fun _ book => Evidenced document receipts book) ?_ (.empty document receipts) ?_
    operations hsupplied
  · intro past operation hall earlier hmem
    exact hall earlier (List.mem_append_left _ hmem)
  · intro past operation hall hold
    exact hold.operate hfree (hall operation (by simp))

end Operations

/-- Evidence does not depend on the delivery order, a fault is terminal, and every recorded
pair of a reachable book is a hash-ordered conflict. -/
theorem fault_evidence_canonical [Crypto] :
    (∀ (book : ReceiptBook) (first second : Receipt),
      book.fault = none → book.tenure = book.latest.map Receipt.selection →
      ReceiptsConflict first second →
      (book.ingestVerified first).1 = .ok .advanced →
      (book.ingestVerified second).1 = .ok .advanced →
      ∃ final, (book.ingestVerified first).2.ingestVerified second = (.ok .fault, final) ∧
        (book.ingestVerified second).2.ingestVerified first = (.ok .fault, final) ∧
        ∀ receipt, (final.ingestVerified receipt).2 = final) ∧
      (∀ (book : ReceiptBook) (receipt later : Receipt),
        book.tenure = book.latest.map Receipt.selection →
        (book.ingestVerified receipt).1 = .ok .fault →
        ((book.ingestVerified receipt).2.ingestVerified later).2
          = (book.ingestVerified receipt).2) ∧
      ∀ (document : LogicalDocument) (receipts : Set Receipt) (operations : List Operation),
        Receipt.CollisionFree receipts →
        (∀ operation ∈ operations, ∀ receipt ∈ operation.supplied, receipt ∈ receipts) →
        ∀ pair ∈ (run (operate document) ReceiptBook.empty operations).fault,
          pair.1.hash < pair.2.hash ∧ ReceiptsConflict pair.1 pair.2 := by
  refine ⟨?_, ?_, ?_⟩
  · intro book first second hfault hselects hconflict hfirst hsecond
    have hleft := ingest_advanced_conflict hselects hfault hconflict hfirst hsecond
    have hright := ingest_advanced_conflict hselects hfault hconflict.symm hsecond hfirst
    rw [← book.evidenced_comm hconflict] at hright
    refine ⟨_, hleft, hright, ?_⟩
    exact ingestVerified_of_faulted (by simp [evidenced]) (by simp [evidenced])
  · intro book receipt later hselects hok
    rcases ingestVerified_fault hselects hok with ⟨hfault, hdocument⟩
    exact ingestVerified_of_faulted hfault hdocument later
  · intro document receipts operations hfree hsupplied pair hpair
    exact ((run_evidenced document hfree hsupplied).fault pair hpair).2

/-- Two receipts that close the same epoch with different signatures. -/
def equivocatingOperations : List Operation :=
  [.deliver (.ingestAndSeal (plainReceipt plainDocument 1 5 3 2) (plainGroup [7] 1) 5
      (.new plainDocument 9 3 1)),
    .deliver (.ingestAndSeal (plainReceipt plainDocument 1 5 3 4) (plainGroup [7] 1) 5
      (.new plainDocument 9 3 1))]

theorem fault_evidence_canonical_equivocation :
    (∃ final, @ingestVerified plainCrypto (@ingestVerified plainCrypto .empty
          (plainReceipt plainDocument 1 5 3 2)).2 (plainReceipt plainDocument 1 5 3 4)
        = (.ok .fault, final) ∧
      @ingestVerified plainCrypto (@ingestVerified plainCrypto .empty
          (plainReceipt plainDocument 1 5 3 4)).2 (plainReceipt plainDocument 1 5 3 2)
        = (.ok .fault, final) ∧
      ∀ receipt, (@ingestVerified plainCrypto final receipt).2 = final) ∧
    ∀ pair ∈ (run (@operate plainCrypto plainDocument) .empty equivocatingOperations).fault,
      @Receipt.hash plainCrypto pair.1 < @Receipt.hash plainCrypto pair.2 ∧
        @ReceiptsConflict plainCrypto pair.1 pair.2 := by
  have hcanonical := @fault_evidence_canonical plainCrypto
  refine ⟨?_, ?_⟩
  · exact hcanonical.1 .empty _ _ rfl rfl (by decide +kernel) (by decide +kernel)
      (by decide +kernel)
  · refine hcanonical.2.2 plainDocument
      {receipt | receipt ∈ [plainReceipt plainDocument 1 5 3 2, plainReceipt plainDocument 1 5 3 4]}
      equivocatingOperations ?_ ?_
    · exact @Receipt.collisionFree_of_list plainCrypto _ (by decide +kernel)
    · simp [equivocatingOperations, Operation.supplied]

end ReceiptBook

end Mewtual
