import Mewtual.Epoch.RepairTransition
import Mewtual.Lib.Run

/-!
# A repaired loser never comes back

An applied repair repudiates the losing receipt and, where the baselines differ, every
receipt on the losing baseline. All three routes a receipt takes into the book screen such
receipts before their other shortcuts. The runs here give every delivery its own gate and
opening receipt, since the source may install successors in between.

Main results:

- Theorem {lit}`ReceiptBook.repaired_loser_never_returns`: what holds of every book a run
  reaches from an applied repair.
-/

namespace Mewtual

namespace ReceiptBook

/-! ## Deliveries -/

/-- One operation on the book of a repaired source. -/
inductive Delivery where
  | ingestAndSeal (receipt : Receipt) (group : OwnerAuthority) (tenureStart : UInt64)
      (gate : EpochGate)
  | checkOpening (receipt opening : Receipt) (group : OwnerAuthority) (tenureStart : UInt64)
      (gate : EpochGate)
  | ingestAdoption (receipt : Receipt) (group : OwnerAuthority) (tenureStart : UInt64)
      (gate : EpochGate) (opening : Option Receipt)
  | markLatestInstalled
  | restart (adopting : Bool)

/-- The receipt an operation delivers. -/
def Delivery.receipt : Delivery → Option Receipt
  | .ingestAndSeal receipt _ _ _ => some receipt
  | .checkOpening receipt _ _ _ _ => some receipt
  | .ingestAdoption receipt _ _ _ _ => some receipt
  | .markLatestInstalled => none
  | .restart _ => none

/-- The book an operation leaves. A book that could not be saved and read back would not
come up again; the run then keeps it. -/
def deliver [Crypto] (book : ReceiptBook) : Delivery → ReceiptBook
  | .ingestAndSeal receipt group tenureStart gate =>
    (book.ingestAndSeal receipt group tenureStart gate).2.2
  | .checkOpening receipt opening group tenureStart gate =>
    (book.checkOpeningReceipt receipt opening group tenureStart gate).2.2
  | .ingestAdoption receipt group tenureStart gate opening =>
    (book.ingestAdoption receipt group tenureStart gate opening).2.2
  | .markLatestInstalled => book.markLatestInstalled
  | .restart adopting =>
    match book.encodeMode adopting >>= fun saved => decodeMode saved adopting with
    | .ok restored => restored
    | .error _ => book

/-! ## What one delivery does -/

/-- Everything a delivery may do to the head and the fault of a book. The retained receipt a
fault is raised against is the head, the delivered receipt itself, an anchor that is no
repaired loser, or the given opening. -/
inductive Moves [Crypto] (book : ReceiptBook) (receipt : Receipt) (opening : Option Receipt)
    (next : ReceiptBook) : Prop where
  | keeps (hlatest : next.latest = book.latest) (hfault : next.fault = book.fault)
  | heads (hloser : ¬ book.IsRepairedLoser receipt) (hlatest : next.latest = some receipt)
      (hfault : next.fault = book.fault)
  | raises (prior : Receipt) (hloser : ¬ book.IsRepairedLoser receipt)
      (hprior : prior ∈ book.latest ∨ ¬ book.IsRepairedLoser prior ∨ prior ∈ opening)
      (hfault : next.fault = some (canonicalReceiptPair prior receipt))

/-- The delivery kept the recorded repair. -/
structure Screened [Crypto] (book : ReceiptBook) (receipt : Receipt) (opening : Option Receipt)
    (next : ReceiptBook) : Prop where
  resolvedRepair : next.resolvedRepair = book.resolvedRepair
  moves : book.Moves receipt opening next

section Screening

variable [Crypto] (book : ReceiptBook) (receipt : Receipt) (group : OwnerAuthority)
  (tenureStart : UInt64) (gate : EpochGate) (opening : Option Receipt)

theorem Screened.refl : book.Screened receipt opening book := ⟨rfl, .keeps rfl rfl⟩

variable {book receipt} {before : ReceiptBook} (hloser : ¬ book.IsRepairedLoser receipt)
  (hresolved : before.resolvedRepair = book.resolvedRepair) (hfault : before.fault = book.fault)

include hloser hresolved hfault

/-- The high-water filter keeps the head, installs the receipt or raises a fault. -/
theorem ingestHighWater_screened (hlatest : before.latest = book.latest ∨ before.latest = none) :
    book.Screened receipt none (before.ingestHighWater receipt).2 := by
  unfold ingestHighWater
  cases hhead : before.latest with
  | none => exact ⟨hresolved, .heads hloser rfl hfault⟩
  | some latest =>
    have hbook : before.latest = book.latest := by
      rcases hlatest with hlatest | hlatest
      · exact hlatest
      · rw [hhead] at hlatest
        cases hlatest
    have hheld : latest ∈ book.latest := by
      rw [← hbook]
      exact hhead
    dsimp only
    split
    · split
      · split
        · exact ⟨hresolved, .keeps hbook hfault⟩
        · exact ⟨hresolved, .raises latest hloser (.inl hheld) rfl⟩
      · split
        · exact ⟨hresolved, .keeps hbook hfault⟩
        · exact ⟨hresolved, .heads hloser rfl hfault⟩
    · exact ⟨hresolved, .heads hloser rfl hfault⟩

/-- Comparing tenures first does not change that. -/
theorem ingestSelected_screened (hlatest : before.latest = book.latest) :
    book.Screened receipt none (before.ingestSelected receipt).2 := by
  unfold ingestSelected
  split
  · split
    · refine ⟨hresolved, .raises (before.latest.getD receipt) hloser ?_ rfl⟩
      cases hhead : before.latest with
      | none => exact .inr (.inl hloser)
      | some latest =>
        rw [hlatest] at hhead
        exact .inl hhead
    · split
      · exact ingestHighWater_screened hloser hresolved hfault (.inr rfl)
      · exact ingestHighWater_screened hloser hresolved hfault (.inl hlatest)
  · exact ingestHighWater_screened hloser hresolved hfault (.inl hlatest)

omit hloser hresolved hfault
variable (book receipt)

/-- Ordinary ingestion screens a repaired loser before everything else. -/
theorem ingestVerified_screened :
    book.Screened receipt none (book.ingestVerified receipt).2 := by
  unfold ingestVerified
  split
  · exact .refl _ _ _
  · dsimp only
    split
    · exact ⟨rfl, .keeps rfl rfl⟩
    · split <;> rename_i hloser
      · exact ⟨rfl, .keeps rfl rfl⟩
      · exact ingestSelected_screened hloser rfl rfl rfl

theorem ingestAndSeal_screened :
    book.Screened receipt none (book.ingestAndSeal receipt group tenureStart gate).2.2 := by
  rcases book.ingestAndSeal_spec receipt group tenureStart gate with
    ⟨error, heq⟩ | ⟨verified, outcome, next, inner, -, -, -, hingest, -, heq⟩
  · rw [heq]
    exact .refl _ _ _
  · rw [heq]
    have hscreened := book.ingestVerified_screened receipt
    rw [hingest] at hscreened
    exact hscreened

theorem checkOpeningReceipt_screened (opening : Receipt) :
    book.Screened receipt (some opening)
      (book.checkOpeningReceipt receipt opening group tenureStart gate).2.2 := by
  rcases book.checkOpeningReceipt_spec receipt opening group tenureStart gate with
    ⟨error, heq⟩ | ⟨verified, outcome, gate', next, -, -, -, -, hchecked, heq⟩
  · rw [heq]
    exact .refl _ _ _
  · rw [heq]
    cases hchecked with
    | faulted | screened | duplicate => exact .refl _ _ _
    | raises hfault hloser =>
      exact ⟨rfl, .raises opening hloser (.inr (.inr rfl)) rfl⟩

theorem adoptionDecision_screened (hloser : ¬ book.IsRepairedLoser receipt) :
    book.Screened receipt none (book.adoptionDecision receipt opening).2 := by
  unfold adoptionDecision
  split <;> rename_i hfind
  · rename_i prior
    have hexposes : book.Exposes receipt prior := by simpa using List.find?_some hfind
    exact ⟨rfl, .raises prior hloser (.inr (.inl hexposes.2)) rfl⟩
  · exact book.ingestVerified_screened receipt

/-- A committed decision swaps the decided book in or keeps the old one. -/
theorem commitAdoption_book
    (decision : Except ReplError ReceiptIngest × ReceiptBook) :
    (book.commitAdoption gate decision).2.2 = book ∨
      (book.commitAdoption gate decision).2.2 = decision.2 := by
  unfold commitAdoption
  split
  · exact .inl rfl
  · exact .inl rfl
  · exact .inr rfl
  · split
    · exact .inl rfl
    · split
      · exact .inl rfl
      · exact .inr rfl

theorem ingestAdoption_screened :
    book.Screened receipt none
      (book.ingestAdoption receipt group tenureStart gate opening).2.2 := by
  unfold ingestAdoption
  split
  · exact .refl _ _ _
  · split
    · exact .refl _ _ _
    · split
      · exact .refl _ _ _
      · split
        · exact .refl _ _ _
        · split <;> rename_i hloser
          · exact .refl _ _ _
          · rcases book.commitAdoption_book gate (book.adoptionDecision receipt opening) with
              heq | heq
            · rw [heq]
              exact .refl _ _ _
            · rw [heq]
              exact adoptionDecision_screened book receipt opening hloser

end Screening

/-- The opening receipt a delivery is compared with. -/
def Delivery.opening : Delivery → Option Receipt
  | .checkOpening _ opening _ _ _ => some opening
  | _ => none

/-- Every delivery screens its receipt; the other operations keep head, fault and repair. -/
theorem deliver_spec [Crypto] (book : ReceiptBook) (delivery : Delivery) :
    (∃ receipt, delivery.receipt = some receipt ∧
        book.Screened receipt delivery.opening (book.deliver delivery)) ∨
      (delivery.receipt = none ∧
        (book.deliver delivery).resolvedRepair = book.resolvedRepair ∧
        (book.deliver delivery).latest = book.latest ∧
        (book.deliver delivery).fault = book.fault) := by
  cases delivery with
  | ingestAndSeal receipt group tenureStart gate =>
    exact .inl ⟨receipt, rfl, book.ingestAndSeal_screened receipt group tenureStart gate⟩
  | checkOpening receipt opening group tenureStart gate =>
    exact .inl ⟨receipt, rfl,
      book.checkOpeningReceipt_screened receipt group tenureStart gate opening⟩
  | ingestAdoption receipt group tenureStart gate opening =>
    exact .inl ⟨receipt, rfl,
      book.ingestAdoption_screened receipt group tenureStart gate opening⟩
  | markLatestInstalled => exact .inr ⟨rfl, rfl, rfl, rfl⟩
  | restart adopting =>
    refine .inr ⟨rfl, ?_⟩
    rw [deliver]
    split <;> rename_i hrestored
    · rcases bind_eq_ok.mp hrestored with ⟨saved, hsaved, hdecode⟩
      rcases eq_of_decodeMode hsaved hdecode with ⟨rfl, -⟩
      exact ⟨rfl, rfl, rfl⟩
    · exact ⟨rfl, rfl, rfl⟩

/-! ## Whole runs -/

/-- The recorded repair stands, and the book is faulted or its head is not repudiated. -/
structure Repudiates [Crypto] (resolved : ResolvedRepair) (book : ReceiptBook) : Prop where
  resolvedRepair : book.resolvedRepair = some resolved
  latest : book.fault = none → ∀ latest ∈ book.latest, ¬ resolved.Covers latest

/-- How a fault came about on a book that keeps the losing branch out: the delivered receipt
is one side and is not repudiated, and a repudiated other side can only be the retained
opening receipt. -/
structure RaisedBy [Crypto] (resolved : ResolvedRepair) (delivery : Delivery)
    (pair : Receipt × Receipt) : Prop where
  delivered : ∃ receipt prior, delivery.receipt = some receipt ∧
    pair = canonicalReceiptPair prior receipt ∧ ¬ resolved.Covers receipt ∧
    (resolved.Covers prior → delivery.opening = some prior)

section Repudiates

variable [Crypto] {resolved : ResolvedRepair} {book : ReceiptBook} (h : Repudiates resolved book)

include h

theorem Repudiates.isRepairedLoser (receipt : Receipt) :
    book.IsRepairedLoser receipt ↔ resolved.Covers receipt := by
  simp [IsRepairedLoser, h.resolvedRepair]

/-- One delivery keeps the losing branch out. -/
theorem Repudiates.deliver (delivery : Delivery) :
    Repudiates resolved (book.deliver delivery) := by
  rcases book.deliver_spec delivery with
    ⟨receipt, -, hresolved, hmoves⟩ | ⟨-, hresolved, hlatest, hfault⟩
  · refine ⟨hresolved.trans h.resolvedRepair, ?_⟩
    intro hclear latest hmem
    cases hmoves with
    | keeps hlatest hfault =>
      rw [hlatest] at hmem
      rw [hfault] at hclear
      exact h.latest hclear latest hmem
    | heads hloser hlatest hfault =>
      rw [hlatest] at hmem
      cases hmem
      exact fun hcovers => hloser ((h.isRepairedLoser receipt).mpr hcovers)
    | raises prior hloser hprior hfault =>
      rw [hclear] at hfault
      cases hfault
  · refine ⟨hresolved.trans h.resolvedRepair, ?_⟩
    rw [hlatest, hfault]
    exact h.latest

theorem Repudiates.raisedBy (hclear : book.fault = none) {delivery : Delivery}
    {pair : Receipt × Receipt} (hraised : (book.deliver delivery).fault = some pair) :
    RaisedBy resolved delivery pair := by
  rcases book.deliver_spec delivery with
    ⟨receipt, hreceipt, -, hmoves⟩ | ⟨-, -, -, hfault⟩
  · cases hmoves with
    | keeps hlatest hfault | heads hloser hlatest hfault =>
      rw [hfault, hclear] at hraised
      cases hraised
    | raises prior hloser hprior hfault =>
      rw [hraised, Option.some.injEq] at hfault
      refine ⟨receipt, prior, hreceipt, hfault, ?_, ?_⟩
      · exact fun hcovers => hloser ((h.isRepairedLoser receipt).mpr hcovers)
      · intro hcovers
        rcases hprior with hlatest | hnot | hopening
        · exact absurd hcovers (h.latest hclear prior hlatest)
        · exact absurd ((h.isRepairedLoser prior).mpr hcovers) hnot
        · exact hopening
  · rw [hfault, hclear] at hraised
    cases hraised

end Repudiates

/-- An applied repair of the selected receipt's own tenure leaves a book that keeps the
losing branch out. -/
theorem repudiates_of_applied [Crypto] {source : RepairSource} {repair : ReceiptRepair}
    {a b : Receipt} {group : OwnerAuthority} {issuerTenure : UInt64}
    {disposition : RepairDisposition}
    (happlied : (source.apply repair a b group issuerTenure).1 = .ok (.applied disposition))
    (hsame : SameIssuerTenure (ResolvedRepair.between repair a b)) :
    Repudiates (ResolvedRepair.between repair a b)
      (source.apply repair a b group issuerTenure).2.book := by
  rcases source.apply_spec repair a b group issuerTenure with
    ⟨result, hnot, heq⟩ | ⟨candidate, hplanned, heq⟩
  · rw [heq] at happlied
    exact absurd happlied (hnot disposition)
  · rcases RepairBinding.validate_eq_ok hplanned.binding with ⟨resolved, hresolved, -, hlatest⟩
    rw [hplanned.resolved, Option.some.injEq] at hresolved
    subst hresolved
    rw [heq]
    exact ⟨hplanned.resolved, hlatest hsame⟩

/-- From an applied repair on, through every sequence of deliveries, installations and
restarts, the head is not repudiated unless the book is faulted, and no repudiated receipt
raises a fault. -/
theorem repaired_loser_never_returns [Crypto] {source : RepairSource} {repair : ReceiptRepair}
    {a b : Receipt} {group : OwnerAuthority} {issuerTenure : UInt64}
    {disposition : RepairDisposition}
    (happlied : (source.apply repair a b group issuerTenure).1 = .ok (.applied disposition))
    (hsame : SameIssuerTenure (ResolvedRepair.between repair a b)) (deliveries : List Delivery) :
    Repudiates (ResolvedRepair.between repair a b)
        (run deliver (source.apply repair a b group issuerTenure).2.book deliveries) ∧
      ∀ delivery pair,
        (run deliver (source.apply repair a b group issuerTenure).2.book deliveries).fault
          = none →
        ((run deliver (source.apply repair a b group issuerTenure).2.book deliveries).deliver
          delivery).fault = some pair →
        RaisedBy (ResolvedRepair.between repair a b) delivery pair := by
  have hreached : Repudiates (ResolvedRepair.between repair a b)
      (run deliver (source.apply repair a b group issuerTenure).2.book deliveries) := by
    refine run_induction (fun _ => True) (fun _ book => Repudiates _ book) ?_ ?_ ?_ deliveries
      trivial
    · exact fun _ _ _ => trivial
    · exact repudiates_of_applied happlied hsame
    · exact fun past delivery _ hold => hold.deliver delivery
  exact ⟨hreached, fun delivery pair hclear hraised => hreached.raisedBy hclear hraised⟩

/-- The losing receipt is delivered again and the source restarts. -/
def losingDeliveries : List Delivery :=
  [.ingestAndSeal (plainReceipt plainDocument 1 5 0 3) (plainGroup [7] 1) 5
    (.new plainDocument 9 0 1), .restart false]

theorem repaired_loser_never_returns_restarted :
    (@RepairSource.apply plainCrypto .faultedSource RepairSource.faultedRepair
        (plainReceipt plainDocument 1 5 0 2) (plainReceipt plainDocument 1 5 0 3)
        (plainGroup [7] 1) 5).1 = .ok (.applied .transitioned) ∧
      @Repudiates plainCrypto (@ResolvedRepair.between plainCrypto RepairSource.faultedRepair
          (plainReceipt plainDocument 1 5 0 2) (plainReceipt plainDocument 1 5 0 3))
        (run (@deliver plainCrypto) (@RepairSource.apply plainCrypto .faultedSource
          RepairSource.faultedRepair
          (plainReceipt plainDocument 1 5 0 2) (plainReceipt plainDocument 1 5 0 3)
          (plainGroup [7] 1) 5).2.book losingDeliveries) := by
  have happlied : (@RepairSource.apply plainCrypto .faultedSource RepairSource.faultedRepair
      (plainReceipt plainDocument 1 5 0 2) (plainReceipt plainDocument 1 5 0 3)
      (plainGroup [7] 1) 5).1 = .ok (.applied .transitioned) := by
    decide +kernel
  have hsame : SameIssuerTenure (@ResolvedRepair.between plainCrypto RepairSource.faultedRepair
      (plainReceipt plainDocument 1 5 0 2) (plainReceipt plainDocument 1 5 0 3)) := by
    decide +kernel
  exact ⟨happlied,
    (@repaired_loser_never_returns plainCrypto _ _ _ _ _ _ _ happlied hsame losingDeliveries).1⟩

end ReceiptBook

end Mewtual
