import Mewtual.Epoch.Gate

/-!
# Sealing an epoch with a receipt

A receipt reaches a unit along two ordinary routes. One that closes the unit's own epoch is
ingested into the book and seals the gate under the gate's one lock. One that closes the
preceding epoch is compared with the retained opening receipt instead, so that a delayed
equivocation is not hidden by the high-water filter.

Main results:

- Theorem {lit}`ReceiptBook.ingestAndSeal_spec`: an error changes nothing, and an accepted
  receipt moves book and gate together.
- Theorem {lit}`ReceiptBook.checkOpeningReceipt_spec`: the same for the opening receipt.
-/

namespace Mewtual

namespace ReceiptBook

/-! ## The two routes -/

/-- Verify and ingest a receipt while atomically sealing its concrete epoch gate. The book is
swapped by the commit closure, so every refusal leaves both states alone. -/
def ingestAndSeal [Crypto] (book : ReceiptBook) (receipt : Receipt) (group : OwnerAuthority)
    (expectedTenureStart : UInt64) (gate : EpochGate) :
    Except ReplError (ReceiptIngest × List AdmittedOperation) × EpochGate × ReceiptBook :=
  match receipt.verifyCurrentOwner group expectedTenureStart with
  | .error error => (.error error, gate, book)
  | .ok verified =>
    if gate.epoch ≠ receipt.closedEpoch then (.error .epochScope, gate, book)
    else match book.ingestVerified receipt with
      | (.error error, _) => (.error error, gate, book)
      | (.ok outcome, next) =>
        let (operations, gate, book) :=
          gate.transitionVerifiedReceipt verified outcome (fun _ => next) book
        (operations.map (outcome, ·), gate, book)

/-- The book with fault evidence recorded beside its head. -/
@[simps] def raised [Crypto] (book : ReceiptBook) (anchor receipt : Receipt) : ReceiptBook :=
  { book with fault := some (canonicalReceiptPair anchor receipt) }

/-- Recheck the retained opening receipt even while a later receipt seals the successor. -/
def checkOpeningReceipt [Crypto] (book : ReceiptBook) (receipt opening : Receipt)
    (group : OwnerAuthority) (tenureStart : UInt64) (gate : EpochGate) :
    Except ReplError ReceiptIngest × EpochGate × ReceiptBook :=
  match receipt.verifyCurrentOwner group tenureStart with
  | .error error => (.error error, gate, book)
  | .ok _ =>
    if receipt.document ≠ gate.document ∨ receipt.document ≠ opening.document
        ∨ receipt.closedEpoch ≠ opening.closedEpoch
        ∨ checkedAdd opening.closedEpoch 1 ≠ some gate.epoch
        ∨ receipt.tenureId ≠ opening.tenureId then (.error .epochScope, gate, book)
    else if book.fault.isSome then (.ok .fault, gate, book)
    else if book.IsRepairedLoser receipt then (.ok .stale, gate, book)
    else if ¬ (gate.inner.phase = .opened ∨ gate.inner.phase = .closing) then
      (.error .epochClosed, gate, book)
    else if receipt = opening then (.ok .duplicate, gate, book)
    else if ¬ ReceiptsConflict opening receipt then (.error .receiptConflict, gate, book)
    -- The head, tenure and predecessor stay: the head may be the sealing receipt.
    else (.ok .fault, gate.withInner (gate.inner.moved .fault none),
      book.raised opening receipt)

/-! ## What the routes do -/

/-- An error changes nothing. An accepted receipt was ingested into the book and moved the
gate of the epoch it closes. -/
theorem ingestAndSeal_spec [Crypto] (book : ReceiptBook) (receipt : Receipt)
    (group : OwnerAuthority) (expectedTenureStart : UInt64) (gate : EpochGate) :
    (∃ error, book.ingestAndSeal receipt group expectedTenureStart gate
        = (.error error, gate, book)) ∨
      ∃ verified outcome next inner,
        receipt.verifyCurrentOwner group expectedTenureStart = .ok verified ∧
        receipt.closedEpoch = gate.epoch ∧ receipt.document = gate.document ∧
        book.ingestVerified receipt = (.ok outcome, next) ∧
        EpochGate.Transition gate.inner receipt.hash outcome inner ∧
        book.ingestAndSeal receipt group expectedTenureStart gate
          = (.ok (outcome, if outcome = .stale then [] else gate.inner.accepted),
              gate.withInner inner, next) := by
  unfold ingestAndSeal
  cases hverified : receipt.verifyCurrentOwner group expectedTenureStart with
  | error error => exact .inl ⟨error, rfl⟩
  | ok verified =>
    have hfacts := Receipt.verified_eq hverified
    dsimp only
    split <;> rename_i hepoch
    · exact .inl ⟨_, rfl⟩
    · rcases hingest : book.ingestVerified receipt with ⟨result, next⟩
      cases result with
      | error error => exact .inl ⟨error, rfl⟩
      | ok outcome =>
        dsimp only
        rcases gate.transitionVerifiedReceipt_spec verified outcome (fun _ => next) book with
          ⟨error, heq⟩ | ⟨hdocument, hclosed, inner, hmove, heq⟩
        · rw [heq]
          exact .inl ⟨error, rfl⟩
        · rw [heq]
          subst hfacts
          exact .inr ⟨_, outcome, next, inner, rfl, hclosed, hdocument, rfl, hmove, rfl⟩

/-- What a receipt for the preceding epoch does to a unit. -/
inductive OpeningChecked [Crypto] (book : ReceiptBook) (gate : EpochGate)
    (receipt opening : Receipt) : ReceiptIngest → EpochGate → ReceiptBook → Prop where
  | faulted (hfault : book.fault ≠ none) :
      OpeningChecked book gate receipt opening .fault gate book
  | screened (hfault : book.fault = none) (hloser : book.IsRepairedLoser receipt) :
      OpeningChecked book gate receipt opening .stale gate book
  | duplicate (hfault : book.fault = none) (hsame : receipt = opening) :
      OpeningChecked book gate receipt opening .duplicate gate book
  | raises (hfault : book.fault = none) (hloser : ¬ book.IsRepairedLoser receipt)
      (hphase : gate.inner.phase = .opened ∨ gate.inner.phase = .closing)
      (hconflict : ReceiptsConflict opening receipt)
      (hclosed : receipt.closedEpoch = opening.closedEpoch) :
      OpeningChecked book gate receipt opening .fault
        (gate.withInner (gate.inner.moved .fault none)) (book.raised opening receipt)

/-- A refusal changes nothing, and an accepted receipt takes one of the listed steps. -/
theorem checkOpeningReceipt_spec [Crypto] (book : ReceiptBook) (receipt opening : Receipt)
    (group : OwnerAuthority) (tenureStart : UInt64) (gate : EpochGate) :
    (∃ error, book.checkOpeningReceipt receipt opening group tenureStart gate
        = (.error error, gate, book)) ∨
      ∃ verified outcome gate' book',
        receipt.verifyCurrentOwner group tenureStart = .ok verified ∧
        receipt.document = gate.document ∧ receipt.document = opening.document ∧
        receipt.tenureId = opening.tenureId ∧
        OpeningChecked book gate receipt opening outcome gate' book' ∧
        book.checkOpeningReceipt receipt opening group tenureStart gate
          = (.ok outcome, gate', book') := by
  unfold checkOpeningReceipt
  cases hverified : receipt.verifyCurrentOwner group tenureStart with
  | error error => exact .inl ⟨error, rfl⟩
  | ok verified =>
    dsimp only
    split <;> rename_i hscope
    · exact .inl ⟨_, rfl⟩
    · simp only [not_or, not_not] at hscope
      rcases hscope with ⟨hgate, hdocument, hclosed, -, htenure⟩
      split <;> rename_i hfault
      · exact .inr ⟨_, _, _, _, rfl, hgate, hdocument, htenure,
          .faulted (Option.isSome_iff_ne_none.mp hfault), rfl⟩
      · rw [Option.not_isSome_iff_eq_none] at hfault
        split <;> rename_i hloser
        · exact .inr ⟨_, _, _, _, rfl, hgate, hdocument, htenure, .screened hfault hloser, rfl⟩
        · split <;> rename_i hphase
          · exact .inl ⟨_, rfl⟩
          · split <;> rename_i hsame
            · exact .inr ⟨_, _, _, _, rfl, hgate, hdocument, htenure,
                .duplicate hfault hsame, rfl⟩
            · split <;> rename_i hconflict
              · exact .inl ⟨_, rfl⟩
              · exact .inr ⟨_, _, _, _, rfl, hgate, hdocument, htenure,
                  .raises hfault hloser (not_not.mp hphase) (not_not.mp hconflict) hclosed,
                  rfl⟩

end ReceiptBook

end Mewtual
