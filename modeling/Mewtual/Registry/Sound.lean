import Mewtual.Registry.Unit

/-!
# Sound units

A unit is sound when its saved form reopens in the unit's own mode. This module proves that
soundness is what the restore checks test, and that it survives every operation on a unit:
admissions, ordinary sealing, the opening check, and checkpoint adoption.

Main results:

- Theorem {lit}`RegistryEpoch.Sound.reopens`: a sound unit reopens.
- Theorem {lit}`RegistryEpoch.Sound.sealOrdinary`: an ordinary receipt keeps a unit sound.
- Theorem {lit}`RegistryEpoch.Sound.beginCheckpointAdoption`: so does a selected checkpoint.
-/

namespace Mewtual

namespace EpochGate

/-- Two gates agree on everything a restart check reads beside the operations. -/
structure SameLifecycle (left right : EpochGate) : Prop where
  document : right.document = left.document
  epoch : right.epoch = left.epoch
  phase : right.inner.phase = left.inner.phase
  receiptHash : right.inner.receiptHash = left.inner.receiptHash

section SameLifecycle

variable [Crypto] {left right : EpochGate} {book : ReceiptBook} {opening : Option Receipt}

theorem OpeningOk.congr (h : left.OpeningOk opening) (hdocument : right.document = left.document)
    (hepoch : right.epoch = left.epoch) : right.OpeningOk opening := by
  refine ⟨?_, ?_⟩
  · rw [hdocument, hepoch]
    exact h.held
  · rw [hepoch]
    exact h.absent

theorem OrdinaryRestart.congr (h : left.OrdinaryRestart book opening)
    (hsame : SameLifecycle left right) : right.OrdinaryRestart book opening where
  previous := h.previous
  retained := by
    simp only [BelongsTo, hsame.document, hsame.epoch]
    exact h.retained
  phase := by
    simp only [PhaseOk, SealedBy, hsame.phase, hsame.epoch, hsame.receiptHash]
    exact h.phase

theorem AdoptionRestart.congr (h : left.AdoptionRestart book opening)
    (hsame : SameLifecycle left right) : right.AdoptionRestart book opening where
  head := by
    simp only [ReceiptBook.AdoptionPhaseOk, hsame.phase, hsame.receiptHash]
    exact h.head
  retained := by
    rw [hsame.document]
    exact h.retained

/-- In either mode a restart check reads only the lifecycle. -/
theorem SameLifecycle.restart {adopting : Bool} (hsame : SameLifecycle left right)
    (h : if adopting then left.AdoptionRestart book opening
      else left.OrdinaryRestart book opening) :
    if adopting then right.AdoptionRestart book opening
    else right.OrdinaryRestart book opening := by
  cases adopting with
  | true => exact AdoptionRestart.congr h hsame
  | false => exact OrdinaryRestart.congr h hsame

end SameLifecycle

end EpochGate

namespace RegistryEpoch

/-! ## Reopening -/

/-- The saved pieces of the unit are read back and accepted together, in the unit's mode. -/
structure Reopens [Crypto] (unit : RegistryEpoch) : Prop where
  book : ∃ saved, unit.receipts.encodeMode unit.adopting = .ok saved ∧
    ReceiptBook.decodeMode saved unit.adopting = .ok unit.receipts
  gate : ∃ saved restored, unit.gate.encode = .ok saved ∧ EpochGate.decode saved = .ok restored ∧
    restored.verifyRestartMode unit.gate.inner.accepted unit.receipts unit.opening
      unit.adopting = .ok ()
  live : unit.gate.verifyRestartMode unit.gate.inner.accepted unit.receipts unit.opening
    unit.adopting = .ok ()
  opening : ∀ receipt ∈ unit.opening, Receipt.decode receipt.encode = .ok receipt

/-- What the restore checks test of a unit. -/
structure Sound [Crypto] (unit : RegistryEpoch) : Prop where
  valid : unit.gate.inner.Valid
  scope : unit.gate.document = unit.logical
  bounded : unit.logical.Bounded
  storable : unit.receipts.Storable
  derived : unit.receipts.rederived = unit.receipts
  rechecked : unit.receipts.Rechecked unit.adopting
  document : ∀ document ∈ unit.receipts.document, document = unit.logical
  opening : unit.gate.OpeningOk unit.opening
  openingRead : ∀ receipt ∈ unit.opening, receipt.WellFormed
  restart : if unit.adopting then unit.gate.AdoptionRestart unit.receipts unit.opening
    else unit.gate.OrdinaryRestart unit.receipts unit.opening

section Reopens

variable [Crypto] {unit : RegistryEpoch}

/-- A sound unit reopens. -/
theorem Sound.reopens (h : unit.Sound) : unit.Reopens := by
  have hdocument : ∀ document ∈ unit.receipts.document, document = unit.gate.document := by
    rw [h.scope]
    exact h.document
  have hmatches := EpochGate.matches_accepted h.valid hdocument
  have hsame : EpochGate.SameLifecycle unit.gate unit.gate.sorted := ⟨rfl, rfl, rfl, rfl⟩
  refine ⟨h.storable.decodeMode_encodeMode h.derived h.rechecked, ?_, ?_,
    fun receipt hmem => Receipt.decode_encode (h.openingRead receipt hmem)⟩
  · have hbounded : unit.gate.document.Bounded := h.scope ▸ h.bounded
    rcases EpochGate.decode_encode hbounded h.valid with ⟨saved, hencode, hdecode⟩
    refine ⟨saved, unit.gate.sorted, hencode, hdecode, ?_⟩
    exact EpochGate.verifyRestartMode_eq_ok.mpr
      ⟨hmatches, h.opening.congr rfl rfl, hsame.restart h.restart⟩
  · exact EpochGate.verifyRestartMode_eq_ok.mpr ⟨hmatches, h.opening, h.restart⟩

/-- A unit that reopens, with a valid gate of its own document, is sound. -/
theorem Reopens.sound (h : unit.Reopens) (hvalid : unit.gate.inner.Valid)
    (hscope : unit.gate.document = unit.logical) (hbounded : unit.logical.Bounded) :
    unit.Sound := by
  rcases h.book with ⟨saved, hsaved, hdecode⟩
  rcases ReceiptBook.storable_of_decodeMode hdecode with ⟨hstorable, hderived⟩
  rcases EpochGate.verifyRestartMode_eq_ok.mp h.live with ⟨hmatches, hopening, hrestart⟩
  refine ⟨hvalid, hscope, hbounded, hstorable, hderived,
    (ReceiptBook.eq_of_decodeMode hsaved hdecode).2, ?_, hopening,
    fun receipt hmem => (Receipt.encode_of_decode (h.opening receipt hmem)).2, hrestart⟩
  rw [← hscope]
  exact hmatches.2.2

theorem Sound.coherent (h : unit.Sound) : unit.receipts.Coherent where
  tenure := h.storable.tenure
  document := by
    intro latest hlatest
    have hderived := congrArg ReceiptBook.document h.derived
    rw [Option.mem_def] at hlatest
    simp only [ReceiptBook.rederived, ReceiptBook.derivedDocument, hlatest] at hderived
    exact hderived.symm

/-- An operation that only touches accepted work, quarantine or owner keeps a unit sound. -/
theorem Sound.same_lifecycle (h : unit.Sound) {gate : EpochGate} (hvalid : gate.inner.Valid)
    (hsame : EpochGate.SameLifecycle unit.gate gate) :
    (unit.updated gate unit.receipts).Sound := { h with
  valid := hvalid
  scope := hsame.document.trans h.scope
  opening := h.opening.congr hsame.document hsame.epoch
  restart := hsame.restart h.restart }

end Reopens

/-! ## Moving the head -/

section Head

variable [Crypto] {unit : RegistryEpoch} {receipt : Receipt}

/-- What is known of a delivered receipt beside the unit it reaches: it is canonical and
authentic, hashes identify it among the retained receipts, and if it continues the opening
receipt's tenure then so does the unfaulted head that was retained in between. -/
structure Delivered (unit : RegistryEpoch) (receipt : Receipt) : Prop where
  wellFormed : receipt.WellFormed
  signature : receipt.verifySignatureOnly = .ok ()
  identity : ∀ held, held ∈ unit.receipts.retained ∨ held ∈ unit.opening →
    held.hash = receipt.hash → held = receipt
  lineage : unit.receipts.fault = none → ∀ opening ∈ unit.opening,
    ∀ latest ∈ unit.receipts.latest,
    opening.tenureId = receipt.tenureId → latest.tenureId = receipt.tenureId

section

variable (h : unit.Sound)

include h

theorem Sound.retained_document :
    ∀ held ∈ unit.receipts.retained, held.document = unit.logical := by
  intro held hheld
  have hrestart := h.restart
  split at hrestart
  · rw [← h.scope]
    exact (hrestart.retained held hheld).1
  · rw [← h.scope]
    exact (hrestart.retained held hheld).1.1

theorem Sound.retained_signature :
    ∀ held ∈ unit.receipts.retained, held.verifySignatureOnly = .ok () := by
  intro held hheld
  have hrestart := h.restart
  split at hrestart
  · exact (hrestart.retained held hheld).2.2
  · exact (hrestart.retained held hheld).2

theorem Sound.retained_wellFormed :
    ∀ held ∈ unit.receipts.retained, held.WellFormed := by
  intro held hheld
  rcases ReceiptBook.mem_retained.mp hheld with hlatest | hprevious | ⟨pair, hpair, rfl | rfl⟩
  · exact h.storable.latest held hlatest
  · exact h.storable.previous held hprevious
  · exact (h.storable.fault pair hpair).1
  · exact (h.storable.fault pair hpair).2

/-- What the restore checks ask of the delivered receipt and of those already retained. -/
theorem Sound.held_ok (hdelivered : unit.Delivered receipt)
    (hdocument : receipt.document = unit.logical) {held : Receipt}
    (hheld : held = receipt ∨ held ∈ unit.receipts.retained) :
    held.WellFormed ∧ held.document = unit.logical ∧ held.verifySignatureOnly = .ok () := by
  rcases hheld with rfl | hold
  · exact ⟨hdelivered.wellFormed, hdocument, hdelivered.signature⟩
  · exact ⟨h.retained_wellFormed held hold, h.retained_document held hold,
      h.retained_signature held hold⟩

/-- A head gives the book its document and its tenure. -/
theorem Sound.of_latest {latest : Receipt}
    (hlatest : unit.receipts.latest = some latest) :
    unit.receipts.document = some unit.logical ∧
      unit.receipts.tenure = some latest.selection := by
  have hkept := h.retained_document latest (ReceiptBook.mem_retained.mpr (.inl hlatest))
  refine ⟨?_, ?_⟩
  · rw [h.coherent.document latest hlatest, hkept]
  · rw [h.coherent.tenure, hlatest, Option.map_some]

/-- A unit whose book keeps the repair and has a head of its own tenure is sound once its
evidence and its phase pass the restore checks. -/
theorem Sound.of_head {next : RegistryEpoch} {head : Receipt}
    (hlogical : next.logical = unit.logical) (hopening : next.opening = unit.opening)
    (hdocument : next.gate.document = unit.gate.document)
    (hepoch : next.gate.epoch = unit.gate.epoch) (hvalid : next.gate.inner.Valid)
    (hbound : next.receipts.document = some unit.logical)
    (hlatest : next.receipts.latest = some head)
    (htenure : next.receipts.tenure = some head.selection)
    (hresolved : next.receipts.resolvedRepair = unit.receipts.resolvedRepair)
    (hsequence : next.receipts.repairSequence = unit.receipts.repairSequence)
    (hretained : ∀ held ∈ next.receipts.retained,
      held.WellFormed ∧ held.document = unit.logical)
    (hfault : ∀ pair ∈ next.receipts.fault, ReceiptBook.FaultOk next.adopting
      (next.receipts.version next.adopting) next.receipts.latest pair.1 pair.2)
    (hrestart : if next.adopting then next.gate.AdoptionRestart next.receipts unit.opening
      else next.gate.OrdinaryRestart next.receipts unit.opening) : next.Sound where
  valid := hvalid
  scope := by rw [hdocument, hlogical, h.scope]
  bounded := by rw [hlogical]; exact h.bounded
  storable :=
    { latest := fun held hmem => (hretained held (ReceiptBook.mem_retained.mpr (.inl hmem))).1
      previous := fun held hmem =>
        (hretained held (ReceiptBook.mem_retained.mpr (.inr (.inl hmem)))).1
      fault := fun pair hmem =>
        ⟨(hretained _ (ReceiptBook.mem_retained.mpr (.inr (.inr ⟨pair, hmem, .inl rfl⟩)))).1,
          (hretained _ (ReceiptBook.mem_retained.mpr (.inr (.inr ⟨pair, hmem, .inr rfl⟩)))).1⟩
      resolved := by rw [hresolved]; exact h.storable.resolved
      tenure := by rw [htenure, hlatest, Option.map_some] }
  derived := by
    have hhead : head.document = unit.logical :=
      (hretained head (ReceiptBook.mem_retained.mpr (.inl hlatest))).2
    have hderived : ReceiptBook.derivedDocument next.receipts.latest
        next.receipts.resolvedRepair = next.receipts.document := by
      rw [hlatest, hbound, ReceiptBook.derivedDocument, Option.map_some, hhead, Option.some_or]
    rw [ReceiptBook.rederived, hderived]
  rechecked :=
    { tenure := by rw [htenure, hlatest, Option.map_some]
      previous := by
        intro hnone
        rw [hlatest] at hnone
        cases hnone
      fault := hfault
      others := by
        intro held hmem
        have hmem' : held ∈ next.receipts.retained := List.mem_append_right _ hmem
        rw [hbound, (hretained held hmem').2]
      resolved := by
        intro resolved hmem
        rw [hresolved] at hmem
        have hold := h.rechecked.resolved resolved hmem
        have hsome := (ResolvedRepair.verify_eq_ok hold).2.2.1
        rw [hsequence, hbound, ← h.document _ hsome, ← hsome]
        exact hold }
  document := by
    intro document hmem
    rw [Option.mem_def, hbound, Option.some.injEq] at hmem
    rw [hlogical, hmem]
  opening := by
    rw [hopening]
    exact h.opening.congr hdocument hepoch
  openingRead := by
    rw [hopening]
    exact h.openingRead
  restart := by
    rw [hopening]
    exact hrestart

end

end Head

/-! ## Ordinary sealing -/

section Ordinary

variable [Crypto] {unit : RegistryEpoch} {receipt : Receipt} {book : ReceiptBook}

/-- An unfaulted ordinary unit is open on its opening receipt, or sealed by its head. -/
theorem unfaulted_cases {gate : EpochGate} {opening : Option Receipt}
    (h : gate.OrdinaryRestart book opening) (hfault : book.fault = none) :
    (gate.inner.phase = .opened ∧ book.latest = opening) ∨
      (gate.inner.phase = .closing ∧
        ∃ latest, book.latest = some latest ∧ gate.SealedBy opening latest) := by
  have hphase := h.phase
  unfold EpochGate.PhaseOk at hphase
  split at hphase
  · exact .inl ⟨by assumption, hphase.2⟩
  · rcases hphase.2 with ⟨latest, hlatest, hsealed⟩
    exact .inr ⟨by assumption, latest, hlatest, hsealed⟩
  · rcases hphase with ⟨pair, hpair, -⟩
    rw [hfault] at hpair
    exact absurd hpair (Option.not_mem_none pair)
  · exact hphase.elim

/-- A faulted ordinary unit is in the fault phase. -/
theorem faulted_phase {gate : EpochGate} {opening : Option Receipt}
    (h : gate.OrdinaryRestart book opening) (hfault : book.fault ≠ none) :
    gate.inner.phase = .fault := by
  have hphase := h.phase
  unfold EpochGate.PhaseOk at hphase
  split at hphase
  · exact absurd hphase.1 hfault
  · exact absurd hphase.1 hfault
  · assumption
  · exact hphase.elim

theorem Sound.ordinary (h : unit.Sound) (hmode : unit.adopting = false) :
    unit.gate.OrdinaryRestart unit.receipts unit.opening := by
  have hrestart := h.restart
  rwa [if_neg (by simp [hmode])] at hrestart

/-- A conflict is recorded as hash-ordered evidence. -/
theorem evidence_of_conflict {a b : Receipt} (hconflict : ReceiptsConflict a b) :
    (canonicalReceiptPair a b).1.hash < (canonicalReceiptPair a b).2.hash ∧
      ReceiptsConflict (canonicalReceiptPair a b).1 (canonicalReceiptPair a b).2 :=
  ⟨canonicalReceiptPair_lt hconflict.2.2.1, canonicalReceiptPair_conflict hconflict⟩

omit [Crypto] in
/-- A head above the recorded pair gets a version that may carry it. -/
theorem version_of_headAbove {latest : Receipt} {pair : Receipt × Receipt}
    (hlatest : book.latest = some latest) (hfault : book.fault = some pair)
    (hfirst : latest ≠ pair.1) (hsecond : latest ≠ pair.2) :
    book.version false = 2 ∨ book.version false = 4 := by
  have hhistorical : book.historicalFault = true := by
    simp [ReceiptBook.historicalFault, hlatest, hfault, hfirst, hsecond]
  cases hresolved : book.resolvedRepair with
  | none => exact .inl (by simp [ReceiptBook.version, hresolved, hhistorical])
  | some resolved => exact .inr (by simp [ReceiptBook.version, hresolved])

section Steps

variable (h : unit.Sound) (hmode : unit.adopting = false) (hdelivered : unit.Delivered receipt)
  (hdocument : receipt.document = unit.logical) (hfault : unit.receipts.fault = none)
  (hphase : unit.gate.inner.phase ≠ .settled)

include h hmode hdelivered hdocument hfault hphase

/-- The receipt becomes the head that seals the unit's own epoch. -/
theorem Sound.closes (hclosed : receipt.closedEpoch = unit.gate.epoch)
    (hline : ∀ prior ∈ unit.opening,
      prior.tenureId ≠ receipt.tenureId ∨ prior.selection = receipt.selection)
    (hbound : (unit.receipts.bound receipt).document = some unit.logical)
    {previous : Option Receipt}
    (hprevious : ∀ held ∈ previous, held ∈ unit.receipts.retained ∧ some held = unit.opening) :
    (unit.updated (unit.gate.withInner (unit.gate.inner.moved .closing (some receipt.hash)))
      ((unit.receipts.bound receipt).headed receipt previous)).Sound := by
  have hmem : ∀ held ∈ ((unit.receipts.bound receipt).headed receipt previous).retained,
      held = receipt ∨ (held ∈ unit.receipts.retained ∧ some held = unit.opening) := by
    intro held hheld
    exact (ReceiptBook.mem_retained_headed hfault hheld).imp_right (hprevious held)
  refine h.of_head rfl rfl rfl rfl (h.valid.step (.closes _ hphase)) hbound rfl rfl rfl rfl ?_ ?_ ?_
  · intro held hheld
    have hok := h.held_ok hdelivered hdocument ((hmem held hheld).imp_right And.left)
    exact ⟨hok.1, hok.2.1⟩
  · intro pair hpair
    rw [updated_receipts, ReceiptBook.headed_fault, ReceiptBook.bound_fault, hfault] at hpair
    exact absurd hpair (Option.not_mem_none pair)
  · rw [updated_adopting, if_neg (by simp [hmode])]
    refine ⟨fun held hheld => (hprevious held hheld).2, ?_, ?_⟩
    · intro held hheld
      rcases hmem held hheld with rfl | ⟨hold, hopening⟩
      · exact ⟨⟨hdocument.trans h.scope.symm, .inl hclosed⟩, hdelivered.signature⟩
      · refine ⟨⟨?_, .inr (.inl hopening)⟩, h.retained_signature held hold⟩
        exact (h.retained_document held hold).trans h.scope.symm
    · exact ⟨hfault, receipt, rfl, hclosed, rfl, hline⟩

/-- The receipt equivocates the head of a unit at the unit's own epoch. -/
theorem Sound.equivocates {latest : Receipt} (hlatest : unit.receipts.latest = some latest)
    (hclosed : receipt.closedEpoch = unit.gate.epoch)
    (hconflict : ReceiptsConflict latest receipt) :
    (unit.updated (unit.gate.withInner (unit.gate.inner.moved .fault none))
      ((unit.receipts.bound receipt).equivocated latest receipt)).Sound := by
  have hold := h.ordinary hmode
  have hhead : latest ∈ unit.receipts.retained := ReceiptBook.mem_retained.mpr (.inl hlatest)
  have hevidence := evidence_of_conflict hconflict
  have hkept : ∀ held ∈ ((unit.receipts.bound receipt).equivocated latest receipt).retained,
      held = receipt ∨ held ∈ unit.receipts.retained := by
    intro held hheld
    rcases ReceiptBook.mem_retained_equivocated hheld with rfl | rfl | hprior
    · exact .inr hhead
    · exact .inl rfl
    · exact .inr (ReceiptBook.mem_retained.mpr (.inr (.inl hprior)))
  have hbound : (unit.receipts.bound receipt).document = some unit.logical := by
    rw [h.coherent.bound_eq hlatest, (h.of_latest hlatest).1]
  refine h.of_head rfl rfl rfl rfl (h.valid.step (.faults hphase)) hbound rfl rfl rfl rfl ?_ ?_ ?_
  · intro held hheld
    have hok := h.held_ok hdelivered hdocument (hkept held hheld)
    exact ⟨hok.1, hok.2.1⟩
  · rintro pair ⟨⟩
    exact ⟨hevidence.1, hevidence.2, _, rfl, .inl rfl⟩
  · rw [updated_adopting, if_neg (by simp [hmode])]
    refine ⟨hold.previous, ?_, ?_⟩
    · intro held hheld
      rcases h.held_ok hdelivered hdocument (hkept held hheld) with ⟨-, hin, hsignature⟩
      refine ⟨⟨hin.trans h.scope.symm, ?_⟩, hsignature⟩
      rcases hkept held hheld with rfl | hmem
      · exact .inl hclosed
      · rcases (hold.retained held hmem).1.2 with hown | hopening | ⟨-, pair, hpair, -⟩
        · exact .inl hown
        · exact .inr (.inl hopening)
        · rw [hfault] at hpair
          exact absurd hpair (Option.not_mem_none pair)
    · refine ⟨_, rfl, hevidence.2, ?_⟩
      rcases eq_canonicalReceiptPair.mpr (.inr (rfl : receipt = receipt)) with heq | heq
      · exact .inl (heq ▸ hclosed)
      · exact .inr (.inl (heq ▸ hclosed))

/-- The receipt equivocates the opening receipt of an ordinary unit. -/
theorem Sound.raisesOpening {opening : Receipt} (hopening : unit.opening = some opening)
    (hclosed : receipt.closedEpoch = opening.closedEpoch)
    (hconflict : ReceiptsConflict opening receipt) :
    (unit.updated (unit.gate.withInner (unit.gate.inner.moved .fault none))
      (unit.receipts.raised opening receipt)).Sound := by
  have hold := h.ordinary hmode
  have hevidence := evidence_of_conflict hconflict
  rcases h.opening.held opening hopening with ⟨hopenDocument, hopenEpoch, hopenSignature⟩
  have hmember : ∀ held, held = opening ∨ held = receipt → held.WellFormed ∧
      held.document = unit.logical ∧ held.closedEpoch = opening.closedEpoch ∧
      held.verifySignatureOnly = .ok () := by
    rintro held (rfl | rfl)
    · exact ⟨h.openingRead _ hopening, hopenDocument.trans h.scope, rfl, hopenSignature⟩
    · exact ⟨hdelivered.wellFormed, hdocument, hclosed, hdelivered.signature⟩
  have hfirst := hmember _ (eq_canonicalReceiptPair.mp (.inl rfl))
  have hsecond := hmember _ (eq_canonicalReceiptPair.mp (.inr rfl))
  have hpaired : opening = (canonicalReceiptPair opening receipt).1 ∨
      opening = (canonicalReceiptPair opening receipt).2 := eq_canonicalReceiptPair.mpr (.inl rfl)
  -- The head is the opening receipt, or seals the unit on the opening receipt's own line.
  have hhead : ∃ latest, unit.receipts.latest = some latest ∧ (latest = opening ∨
      (latest.closedEpoch = unit.gate.epoch ∧ opening.selection = latest.selection)) := by
    rcases unfaulted_cases hold hfault with ⟨-, hlatest⟩ | ⟨-, latest, hlatest, hsealed⟩
    · exact ⟨opening, hlatest.trans hopening, .inl rfl⟩
    · refine ⟨latest, hlatest, .inr ⟨hsealed.1, ?_⟩⟩
      have hsame : latest.tenureId = receipt.tenureId :=
        hdelivered.lineage hfault opening hopening latest hlatest hconflict.2.1
      exact (hsealed.2.2 opening hopening).resolve_left
        (not_not.mpr (hconflict.2.1.trans hsame.symm))
  rcases hhead with ⟨latest, hlatest, hplace⟩
  rcases h.of_latest hlatest with ⟨hbound, htenure⟩
  refine h.of_head rfl rfl rfl rfl (h.valid.step (.faults hphase)) hbound hlatest htenure rfl rfl
    ?_ ?_ ?_
  · intro held hheld
    rcases ReceiptBook.mem_retained_raised hheld with hmem | hmem
    · exact ⟨h.retained_wellFormed held hmem, h.retained_document held hmem⟩
    · exact ⟨(hmember held hmem).1, (hmember held hmem).2.1⟩
  · rintro pair ⟨⟩
    refine ⟨hevidence.1, hevidence.2, latest, hlatest, ?_⟩
    by_cases hone : latest = (canonicalReceiptPair opening receipt).1
    · exact .inl hone
    · by_cases htwo : latest = (canonicalReceiptPair opening receipt).2
      · exact .inr (.inl htwo)
      · refine .inr (.inr (.inr ⟨?_, ?_, ?_, ?_⟩))
        · rw [updated_adopting, hmode]
          exact version_of_headAbove hlatest rfl hone htwo
        · rw [hfirst.2.2.1, hsecond.2.2.1]
        · rcases hplace with rfl | ⟨hown, -⟩
          · exact (hpaired.elim hone htwo).elim
          · rw [hfirst.2.2.1, hopenEpoch, hown]
        · rcases hplace with rfl | ⟨-, hline⟩
          · exact (hpaired.elim hone htwo).elim
          · rcases hpaired with heq | heq
            · exact .inl (by rw [← heq, hline])
            · exact .inr (by rw [← heq, hline])
  · have hopeningFault : (unit.receipts.raised opening receipt).OpeningFault unit.opening := by
      refine ⟨_, rfl, ?_, hfirst.2.2.1.trans hsecond.2.2.1.symm, hevidence.2⟩
      rw [hopening]
      rcases hpaired with heq | heq
      · exact .inl (by rw [← heq])
      · exact .inr (by rw [← heq])
    rw [updated_adopting, if_neg (by simp [hmode])]
    refine ⟨hold.previous, ?_, ⟨_, rfl, hevidence.2, .inr (.inr hopeningFault)⟩⟩
    intro held hheld
    rcases ReceiptBook.mem_retained_raised hheld with hmem | hmem
    · rcases hold.retained held hmem with ⟨⟨hin, hplaced⟩, hsignature⟩
      refine ⟨⟨hin, ?_⟩, hsignature⟩
      rcases hplaced with hown | hopened | ⟨-, pair, hpair, -⟩
      · exact .inl hown
      · exact .inr (.inl hopened)
      · rw [hfault] at hpair
        exact absurd hpair (Option.not_mem_none pair)
    · rcases hmember held hmem with ⟨-, hin, -, hsignature⟩
      exact ⟨⟨hin.trans h.scope.symm,
        .inr (.inr ⟨hopeningFault, _, rfl, eq_canonicalReceiptPair.mpr hmem⟩)⟩, hsignature⟩

end Steps

omit [Crypto] in
/-- Binding a book that knows its document changes nothing. -/
theorem bound_eq_self (hdocument : book.document ≠ none) : book.bound receipt = book := by
  rcases Option.ne_none_iff_exists.mp hdocument with ⟨document, hsome⟩
  cases book
  simp only at hsome
  subst hsome
  rfl

section

variable (h : unit.Sound)

include h

/-- A repair or a head gives a sound unit's book its document. -/
theorem Sound.document_ne_none
    (hsome : unit.receipts.latest ≠ none ∨ unit.receipts.resolvedRepair ≠ none) :
    unit.receipts.document ≠ none := by
  intro hnone
  have hderived := congrArg ReceiptBook.document h.derived
  rw [ReceiptBook.rederived, hnone, ReceiptBook.derivedDocument, Option.or_eq_none_iff,
    Option.map_eq_none_iff, Option.map_eq_none_iff] at hderived
  rcases hsome with hlatest | hresolved
  · exact hlatest hderived.1
  · exact hresolved hderived.2

theorem Sound.latest_of_fault (hfault : unit.receipts.fault ≠ none) :
    unit.receipts.latest ≠ none := by
  rcases Option.ne_none_iff_exists.mp hfault with ⟨pair, hpair⟩
  rcases h.rechecked.fault pair hpair.symm with ⟨-, -, head, hhead, -⟩
  rw [Option.mem_def] at hhead
  rw [hhead]
  exact Option.some_ne_none head

/-- Sealing an already faulted gate again changes nothing. -/
theorem Sound.faulted_again (hphase : unit.gate.inner.phase = .fault) :
    unit.gate.withInner (unit.gate.inner.moved .fault none) = unit.gate := by
  have hhash : unit.gate.inner.receiptHash = none := by
    rw [← Option.not_isSome_iff_eq_none, h.valid.hashed, hphase]
    simp
  have hsame : unit.gate.inner.moved .fault none = unit.gate.inner := by
    rw [EpochGateInner.moved, ← hphase, ← hhash]
  rw [hsame, EpochGate.withInner_self]

section

variable (hmode : unit.adopting = false)

include hmode

/-- The gate of the epoch a receipt closes moves with the book that ingested it. -/
theorem Sound.sealed
    (hdelivered : unit.Delivered receipt) (hdocument : receipt.document = unit.logical)
    (hclosed : receipt.closedEpoch = unit.gate.epoch)
    (hbound : (unit.receipts.bound receipt).document = some unit.logical)
    {outcome : ReceiptIngest} {next : ReceiptBook} {inner : EpochGateInner}
    (hingested : unit.receipts.Ingested receipt outcome next)
    (hmove : EpochGate.Transition unit.gate.inner receipt.hash outcome inner) :
    (unit.updated (unit.gate.withInner inner) next).Sound := by
  have hold := h.ordinary hmode
  -- An open unit's head is its opening receipt, which the receipt succeeds or continues.
  have hcloses {latest : Receipt} (hfault : unit.receipts.fault = none)
      (hlatest : unit.receipts.latest = some latest)
      (hline : latest.tenureId ≠ receipt.tenureId ∨ latest.selection = receipt.selection)
      (hphase : unit.gate.inner.phase = .opened) (hopening : unit.receipts.latest = unit.opening) :
      (unit.updated (unit.gate.withInner (unit.gate.inner.moved .closing (some receipt.hash)))
        ((unit.receipts.bound receipt).headed receipt (some latest))).Sound := by
    rw [hlatest] at hopening
    refine h.closes hmode hdelivered hdocument hfault (by simp [hphase]) hclosed ?_ hbound ?_
    · intro prior hprior
      rw [← hopening] at hprior
      cases hprior
      exact hline
    · rintro held ⟨⟩
      exact ⟨ReceiptBook.mem_retained.mpr (.inl hlatest), hopening⟩
  cases hingested with
  | faulted hfault =>
    rw [bound_eq_self (h.document_ne_none (.inl (h.latest_of_fault hfault)))]
    cases hmove with
    | faults =>
      rw [h.faulted_again (faulted_phase hold hfault)]
      exact h
    | closes _ hne | held _ hne => exact absurd rfl hne
  | screened _ hloser =>
    rcases hloser with ⟨resolved, hresolved, -⟩
    have hsome : unit.receipts.resolvedRepair ≠ none := by
      rw [Option.mem_def] at hresolved
      rw [hresolved]
      exact Option.some_ne_none resolved
    rw [bound_eq_self (h.document_ne_none (.inr hsome))]
    cases hmove with
    | stale => exact h
    | closes hne | held hne => exact absurd rfl hne
  | first hfault _ hlatest =>
    have hprevious := h.rechecked.previous hlatest
    rcases unfaulted_cases hold hfault with ⟨hphase, hopening⟩ | ⟨-, latest, hhead, -⟩
    · cases hmove with
      | closes =>
        refine h.closes hmode hdelivered hdocument hfault (by simp [hphase]) hclosed ?_ hbound ?_
        · intro prior hprior
          rw [← hopening, hlatest] at hprior
          exact absurd hprior (Option.not_mem_none prior)
        · intro held hheld
          rw [hprevious] at hheld
          exact absurd hheld (Option.not_mem_none held)
      | held _ _ hclosing => simp [hphase] at hclosing
    · rw [hlatest] at hhead
      cases hhead
  | @succession latest hfault _ hlatest htenure =>
    have hhead : latest ∈ unit.receipts.retained := ReceiptBook.mem_retained.mpr (.inl hlatest)
    rcases unfaulted_cases hold hfault with ⟨hphase, hopening⟩ | ⟨hphase, head, hsame, hsealed⟩
    · cases hmove with
      | closes => exact hcloses hfault hlatest (.inl htenure) hphase hopening
      | held _ _ hclosing => simp [hphase] at hclosing
    · -- A sealed unit only accepts the hash it is sealed by, which is its head's.
      rw [hlatest] at hsame
      cases hsame
      cases hmove with
      | closes _ _ hopened => simp [hphase] at hopened
      | held _ _ _ hhash =>
        have hequal : latest.hash = receipt.hash :=
          Option.some.inj (hsealed.2.1.trans hhash)
        exact absurd (congrArg Receipt.tenureId
          (hdelivered.identity latest (.inl hhead) hequal)) htenure
  | @equivocation latest hfault _ hlatest htenure hdiffers =>
    have hhead : latest ∈ unit.receipts.retained := ReceiptBook.mem_retained.mpr (.inl hlatest)
    have hconflict : ReceiptsConflict latest receipt :=
      ReceiptBook.conflict_of_differs ((h.retained_document latest hhead).trans hdocument.symm)
        htenure hdiffers (hdelivered.identity latest (.inl hhead))
    cases hmove with
    | faults hphase =>
      exact h.equivocates hmode hdelivered hdocument hfault hphase hlatest hclosed hconflict
    | closes _ hne | held _ hne => exact absurd rfl hne
  | @duplicate latest hfault _ hlatest _ hepoch _ =>
    rw [bound_eq_self (h.document_ne_none (.inl (by simp [hlatest])))]
    cases hmove with
    | held => exact h
    | closes _ _ hopened =>
      rcases unfaulted_cases hold hfault with ⟨-, hopening⟩ | ⟨hphase, -⟩
      · rw [hlatest] at hopening
        have hbelow := lt_of_checkedAdd_one (h.opening.held latest hopening.symm).2.1
        rw [hepoch, hclosed] at hbelow
        exact absurd hbelow (UInt64.lt_irrefl _)
      · simp [hphase] at hopened
  | @stale latest _ _ hlatest =>
    rw [bound_eq_self (h.document_ne_none (.inl (by simp [hlatest])))]
    cases hmove with
    | stale => exact h
    | closes hne | held hne => exact absurd rfl hne
  | @advance latest hfault _ hlatest hselection hless =>
    rcases unfaulted_cases hold hfault with ⟨hphase, hopening⟩ | ⟨hphase, head, hsame, hsealed⟩
    · cases hmove with
      | closes => exact hcloses hfault hlatest (.inr hselection) hphase hopening
      | held _ _ hclosing => simp [hphase] at hclosing
    · rw [hlatest] at hsame
      cases hsame
      rw [hclosed, hsealed.1] at hless
      exact absurd hless (UInt64.lt_irrefl _)

variable (group : OwnerAuthority) (start : UInt64)
  (hknown : ∀ verified, receipt.verifyCurrentOwner group start = .ok verified →
    unit.Delivered receipt)

include hknown

/-- Ordinary sealing keeps a unit sound. -/
theorem Sound.ingestAndSeal :
    (unit.updated (unit.receipts.ingestAndSeal receipt group start unit.gate).2.1
      (unit.receipts.ingestAndSeal receipt group start unit.gate).2.2).Sound := by
  rcases unit.receipts.ingestAndSeal_spec receipt group start unit.gate with
    ⟨error, heq⟩ | ⟨verified, outcome, next, inner, hverified, hclosed, hscope, hingest, hmove, heq⟩
  · rw [heq]
    exact h
  · have hdocument : receipt.document = unit.logical := hscope.trans h.scope
    have hstep : (unit.receipts.ingestVerified receipt).1 = .ok outcome := by rw [hingest]
    rcases ReceiptBook.ingestVerified_ingested h.coherent.tenure hstep with ⟨hfresh, hingested⟩
    have hbound : (unit.receipts.bound receipt).document = some unit.logical := by
      rw [ReceiptBook.bound_document_eq hfresh, hdocument]
    rw [hingest] at hingested
    rw [heq]
    exact h.sealed hmode (hknown verified hverified) hdocument hclosed hbound hingested hmove

/-- The opening check keeps a unit sound. -/
theorem Sound.checkOpeningReceipt {opening : Receipt} (hopening : unit.opening = some opening) :
    (unit.updated (unit.receipts.checkOpeningReceipt receipt opening group start unit.gate).2.1
      (unit.receipts.checkOpeningReceipt receipt opening group start unit.gate).2.2).Sound := by
  rcases unit.receipts.checkOpeningReceipt_spec receipt opening group start unit.gate with
    ⟨error, heq⟩ | ⟨verified, outcome, gate, book, hverified, hscope, -, -, hchecked, heq⟩
  · rw [heq]
    exact h
  · rw [heq]
    cases hchecked with
    | faulted | screened | duplicate => exact h
    | raises hfault _ hphase hconflict hclosed =>
      have hunsettled : unit.gate.inner.phase ≠ .settled := by
        rcases hphase with hphase | hphase <;> simp [hphase]
      exact h.raisesOpening hmode (hknown verified hverified) (hscope.trans h.scope) hfault
        hunsettled hopening hclosed hconflict

/-- A receipt outside an adoption keeps a unit sound. -/
theorem Sound.sealOrdinary :
    (unit.sealOrdinary receipt group start).2.Sound := by
  unfold RegistryEpoch.sealOrdinary
  split <;> rename_i hroute
  · exact h.checkOpeningReceipt hmode group start hknown (Option.eq_some_of_filter_eq_some hroute)
  · exact h.ingestAndSeal hmode group start hknown

end

end

end Ordinary

end RegistryEpoch

end Mewtual
