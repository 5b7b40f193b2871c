import Mewtual.Epoch.Seal

/-!
# Adopting a discovered checkpoint

A discovered checkpoint may be distant from the source still held locally. Its receipt is
selected here without discarding an accepted operation. Besides the book's own head, the
opening receipt of the source and the one retained previous target can expose equivocation
below the selected high-water, so both are consulted before the receipt may count as stale.

Main results:

- Theorem {lit}`ReceiptBook.ingestAdoption_spec`: the complete case analysis of a selection.
-/

namespace Mewtual

namespace ReceiptBook

/-- The receipts beside the head that a selection is compared with. -/
def anchors (book : ReceiptBook) (opening : Option Receipt) : List Receipt :=
  opening.toList ++ book.previousUntilInstalled.toList

/-- The retained receipt exposes the selection as an equivocation. A repaired loser is kept
as recovery evidence only. -/
def Exposes [Crypto] (book : ReceiptBook) (receipt prior : Receipt) : Prop :=
  ReceiptsConflict prior receipt ∧ ¬ book.IsRepairedLoser prior

instance [Crypto] (book : ReceiptBook) (receipt prior : Receipt) :
    Decidable (book.Exposes receipt prior) :=
  inferInstanceAs (Decidable (_ ∧ _))

/-- The decision on a copy of the book: screening the anchors comes before the high-water
filter of ordinary ingestion. -/
def adoptionDecision [Crypto] (book : ReceiptBook) (receipt : Receipt)
    (opening : Option Receipt) : Except ReplError ReceiptIngest × ReceiptBook :=
  match (book.anchors opening).find? (fun prior => decide (book.Exposes receipt prior)) with
  | some prior => (.ok .fault, book.raised prior receipt)
  | none => book.ingestVerified receipt

/-- Seal the gate for the decision and swap the book in. -/
def commitAdoption [Crypto] (book : ReceiptBook) (gate : EpochGate) :
    Except ReplError ReceiptIngest × ReceiptBook →
      Except ReplError ReceiptIngest × EpochGate × ReceiptBook
  | (.error error, _) => (.error error, gate, book)
  | (.ok .stale, _) => (.ok .stale, gate, book)
  | (.ok .fault, next) => (.ok .fault, gate.withInner (gate.inner.moved .fault none), next)
  | (.ok outcome, next) =>
    if gate.inner.phase = .fault then (.error .receiptConflict, gate, book)
    else match next.latest with
      | none => (.error .receiptConflict,
          gate.withInner (gate.inner.moved .closing gate.inner.receiptHash), book)
      | some latest => (.ok outcome,
          gate.withInner (gate.inner.moved .closing (some latest.hash)), next)

/-- Select a received checkpoint while retaining and sealing the full local source. -/
def ingestAdoption [Crypto] (book : ReceiptBook) (receipt : Receipt) (group : OwnerAuthority)
    (tenureStart : UInt64) (gate : EpochGate) (opening : Option Receipt) :
    Except ReplError ReceiptIngest × EpochGate × ReceiptBook :=
  match receipt.verifyCurrentOwner group tenureStart with
  | .error error => (.error error, gate, book)
  | .ok _ =>
    if receipt.document ≠ gate.document then (.error .epochScope, gate, book)
    else if gate.inner.phase = .settled then (.error .epochClosed, gate, book)
    else if book.fault.isSome then (.ok .fault, gate, book)
    else if book.IsRepairedLoser receipt then (.ok .stale, gate, book)
    else book.commitAdoption gate (book.adoptionDecision receipt opening)

/-- What a selected checkpoint does to a unit whose book's tenure is its head's. -/
inductive Adopted [Crypto] (book : ReceiptBook) (gate : EpochGate) (opening : Option Receipt)
    (receipt : Receipt) : ReceiptIngest → EpochGate → ReceiptBook → Prop where
  | faulted (hfault : book.fault ≠ none) :
      Adopted book gate opening receipt .fault gate book
  | screened (hfault : book.fault = none) (hloser : book.IsRepairedLoser receipt) :
      Adopted book gate opening receipt .stale gate book
  | raises {prior : Receipt} (hfault : book.fault = none)
      (hloser : ¬ book.IsRepairedLoser receipt) (hprior : prior ∈ book.anchors opening)
      (hexposes : book.Exposes receipt prior) :
      Adopted book gate opening receipt .fault
        (gate.withInner (gate.inner.moved .fault none)) (book.raised prior receipt)
  | stale {next : ReceiptBook} (hloser : ¬ book.IsRepairedLoser receipt)
      (hingested : Ingested book receipt .stale next) :
      Adopted book gate opening receipt .stale gate book
  | equivocates {next : ReceiptBook} (hfault : book.fault = none)
      (hloser : ¬ book.IsRepairedLoser receipt)
      (hquiet : ∀ prior ∈ book.anchors opening, ¬ book.Exposes receipt prior)
      (hingested : Ingested book receipt .fault next) :
      Adopted book gate opening receipt .fault
        (gate.withInner (gate.inner.moved .fault none)) next
  | selects {outcome : ReceiptIngest} {next : ReceiptBook} {latest : Receipt}
      (hfault : book.fault = none) (hloser : ¬ book.IsRepairedLoser receipt)
      (hquiet : ∀ prior ∈ book.anchors opening, ¬ book.Exposes receipt prior)
      (hingested : Ingested book receipt outcome next)
      (hstale : outcome ≠ .stale) (hnofault : outcome ≠ .fault)
      (hphase : gate.inner.phase ≠ .fault) (hlatest : next.latest = some latest) :
      Adopted book gate opening receipt outcome
        (gate.withInner (gate.inner.moved .closing (some latest.hash))) next

/-- A receipt that was installed or matched is the head's equal, so the book has a head. -/
theorem Ingested.latest_isSome [Crypto] {book next : ReceiptBook} {receipt : Receipt}
    {outcome : ReceiptIngest} (hingested : Ingested book receipt outcome next)
    (hstale : outcome ≠ .stale) (hfault : outcome ≠ .fault) :
    ∃ latest, next.latest = some latest := by
  cases hingested with
  | faulted | equivocation => exact absurd rfl hfault
  | screened | stale => exact absurd rfl hstale
  | first | succession | advance => exact ⟨receipt, rfl⟩
  | duplicate _ _ hlatest => exact ⟨_, hlatest⟩

/-- The decision on an unscreened receipt, committed to the gate. -/
theorem commitAdoption_spec [Crypto] {book : ReceiptBook}
    (hselects : book.tenure = book.latest.map Receipt.selection)
    (receipt : Receipt) (gate : EpochGate) (opening : Option Receipt)
    (hfault : book.fault = none) (hloser : ¬ book.IsRepairedLoser receipt) :
    (∃ error, book.commitAdoption gate (book.adoptionDecision receipt opening)
        = (.error error, gate, book)) ∨
      ∃ outcome gate' book', Adopted book gate opening receipt outcome gate' book' ∧
        book.commitAdoption gate (book.adoptionDecision receipt opening)
          = (.ok outcome, gate', book') := by
  unfold adoptionDecision
  cases hfind : (book.anchors opening).find?
      (fun prior => decide (book.Exposes receipt prior)) with
  | some prior =>
    have hexposes : book.Exposes receipt prior := by simpa using List.find?_some hfind
    exact .inr ⟨_, _, _,
      .raises hfault hloser (List.mem_of_find?_eq_some hfind) hexposes, rfl⟩
  | none =>
    have hquiet : ∀ prior ∈ book.anchors opening, ¬ book.Exposes receipt prior := by
      simpa using hfind
    rcases hstep : book.ingestVerified receipt with ⟨result, next⟩
    cases result with
    | error error => exact .inl ⟨error, rfl⟩
    | ok outcome =>
      have hok : (book.ingestVerified receipt).1 = .ok outcome := by rw [hstep]
      have hingested := (ingestVerified_ingested hselects hok).2
      rw [hstep] at hingested
      by_cases hstale : outcome = .stale
      · subst hstale
        exact .inr ⟨_, _, _, .stale hloser hingested, rfl⟩
      · by_cases hnofault : outcome = .fault
        · subst hnofault
          exact .inr ⟨_, _, _, .equivocates hfault hloser hquiet hingested, rfl⟩
        · rcases hingested.latest_isSome hstale hnofault with ⟨latest, hlatest⟩
          rw [commitAdoption.eq_4 _ _ _ _ hstale hnofault]
          split <;> rename_i hphase
          · exact .inl ⟨_, rfl⟩
          · rw [hlatest]
            exact .inr ⟨_, _, _, .selects hfault hloser hquiet hingested hstale hnofault
              hphase hlatest, rfl⟩

/-- A refusal changes nothing, and a selection takes one of the listed steps. -/
theorem ingestAdoption_spec [Crypto] {book : ReceiptBook}
    (hselects : book.tenure = book.latest.map Receipt.selection)
    (receipt : Receipt) (group : OwnerAuthority) (tenureStart : UInt64) (gate : EpochGate)
    (opening : Option Receipt) :
    (∃ error, book.ingestAdoption receipt group tenureStart gate opening
        = (.error error, gate, book)) ∨
      ∃ verified outcome gate' book',
        receipt.verifyCurrentOwner group tenureStart = .ok verified ∧
        receipt.document = gate.document ∧ gate.inner.phase ≠ .settled ∧
        Adopted book gate opening receipt outcome gate' book' ∧
        book.ingestAdoption receipt group tenureStart gate opening
          = (.ok outcome, gate', book') := by
  unfold ingestAdoption
  cases hverified : receipt.verifyCurrentOwner group tenureStart with
  | error error => exact .inl ⟨error, rfl⟩
  | ok verified =>
    dsimp only
    split <;> rename_i hscope
    · exact .inl ⟨_, rfl⟩
    · rw [not_not] at hscope
      split <;> rename_i hsettled
      · exact .inl ⟨_, rfl⟩
      · split <;> rename_i hfault
        · exact .inr ⟨_, _, _, _, rfl, hscope, hsettled,
            .faulted (Option.isSome_iff_ne_none.mp hfault), rfl⟩
        · rw [Option.not_isSome_iff_eq_none] at hfault
          split <;> rename_i hloser
          · exact .inr ⟨_, _, _, _, rfl, hscope, hsettled, .screened hfault hloser, rfl⟩
          · rcases commitAdoption_spec hselects receipt gate opening hfault hloser with
              herror | ⟨outcome, gate', book', hadopted, heq⟩
            · exact .inl herror
            · exact .inr ⟨_, outcome, gate', book', rfl, hscope, hsettled, hadopted, heq⟩

end ReceiptBook

end Mewtual
