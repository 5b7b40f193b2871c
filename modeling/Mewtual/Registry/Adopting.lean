import Mewtual.Registry.Sound

/-!
# Soundness of checkpoint adoption

A selected checkpoint may be distant from the unit it reaches, of another tenure, or a
retarget of an earlier selection. The unit keeps its opening receipt and one previous target
beside the new head, and the restore checks hold both against that head.

Main results:

- Theorem {lit}`RegistryEpoch.Sound.beginCheckpointAdoption`: a selected checkpoint keeps a
  unit sound as long as the head it leaves behind is below the registry's ceiling.
-/

namespace Mewtual

namespace RegistryEpoch

section Adopting

variable [Crypto] {unit : RegistryEpoch} {receipt : Receipt}

theorem Sound.adoption (h : unit.Sound) (hmode : unit.adopting = true) :
    unit.gate.AdoptionRestart unit.receipts unit.opening := by
  have hrestart := h.restart
  rwa [if_pos hmode] at hrestart

/-- An unfaulted adopting unit is sealed by its head. -/
theorem adopting_cases {gate : EpochGate} {book : ReceiptBook} {opening : Option Receipt}
    (h : gate.AdoptionRestart book opening) (hfault : book.fault = none) :
    gate.inner.phase = .closing ∧ ∃ latest, book.latest = some latest ∧
      gate.inner.receiptHash = some latest.hash ∧
      (∀ prior ∈ book.previousUntilInstalled, book.AnchorOk latest prior) ∧
      ∀ prior ∈ opening, book.AnchorOk latest prior := by
  rcases h.head with ⟨latest, hlatest, hphase⟩
  unfold ReceiptBook.AdoptionPhaseOk at hphase
  split at hphase
  · exact ⟨by assumption, latest, hlatest, hphase.2⟩
  · rcases hphase with ⟨pair, hpair, -⟩
    rw [hfault] at hpair
    exact absurd hpair (Option.not_mem_none pair)
  · exact hphase.elim
  · exact hphase.elim

/-- A sound unit without fault evidence is open or sealed. -/
theorem Sound.unfaulted_phase (h : unit.Sound) (hfault : unit.receipts.fault = none) :
    unit.gate.inner.phase = .opened ∨ unit.gate.inner.phase = .closing := by
  cases hmode : unit.adopting with
  | true => exact .inr (adopting_cases (h.adoption hmode) hfault).1
  | false =>
    rcases unfaulted_cases (h.ordinary hmode) hfault with ⟨hphase, -⟩ | ⟨hphase, -⟩
    · exact .inl hphase
    · exact .inr hphase

/-- A sound unit with fault evidence is in the fault phase. -/
theorem Sound.faulted_phase (h : unit.Sound) (hfault : unit.receipts.fault ≠ none) :
    unit.gate.inner.phase = .fault := by
  cases hmode : unit.adopting with
  | false => exact RegistryEpoch.faulted_phase (h.ordinary hmode) hfault
  | true =>
    rcases (h.adoption hmode).head with ⟨latest, -, hphase⟩
    unfold ReceiptBook.AdoptionPhaseOk at hphase
    split at hphase
    · exact absurd hphase.1 hfault
    · assumption
    · exact hphase.elim
    · exact hphase.elim

/-- The opening receipt is not above the head on a line they share. -/
theorem Sound.opening_below (h : unit.Sound) (hfault : unit.receipts.fault = none)
    {opening latest : Receipt} (hopening : unit.opening = some opening)
    (hlatest : unit.receipts.latest = some latest)
    (htenure : opening.tenureId = latest.tenureId) :
    unit.receipts.IsRepairedLoser opening ∨
      (opening.closedEpoch ≤ latest.closedEpoch ∧ opening.selection = latest.selection) := by
  cases hmode : unit.adopting with
  | true =>
    rcases adopting_cases (h.adoption hmode) hfault with ⟨-, head, hhead, -, -, hanchor⟩
    rw [hlatest] at hhead
    cases hhead
    rcases hanchor opening hopening with hne | hloser | ⟨hless, hselection⟩
    · exact absurd htenure hne
    · exact .inl hloser
    · exact .inr ⟨UInt64.le_of_lt hless, hselection⟩
  | false =>
    rcases unfaulted_cases (h.ordinary hmode) hfault with
      ⟨-, hsame⟩ | ⟨-, head, hhead, hclosed, -, hline⟩
    · rw [hlatest, hopening] at hsame
      cases hsame
      exact .inr ⟨UInt64.le_refl _, rfl⟩
    · rw [hlatest] at hhead
      cases hhead
      have hbelow := lt_of_checkedAdd_one (h.opening.held opening hopening).2.1
      rw [← hclosed] at hbelow
      rcases hline opening hopening with hne | hselection
      · exact absurd htenure hne
      · exact .inr ⟨UInt64.le_of_lt hbelow, hselection⟩

/-- An unfaulted unit without a head has no opening receipt. -/
theorem Sound.opening_eq_none (h : unit.Sound) (hfault : unit.receipts.fault = none)
    (hnone : unit.receipts.latest = none) : unit.opening = none := by
  cases hmode : unit.adopting with
  | true =>
    rcases adopting_cases (h.adoption hmode) hfault with ⟨-, head, hhead, -⟩
    rw [hnone] at hhead
    cases hhead
  | false =>
    rcases unfaulted_cases (h.ordinary hmode) hfault with ⟨-, hsame⟩ | ⟨-, head, hhead, -⟩
    · rw [← hsame, hnone]
    · rw [hnone] at hhead
      cases hhead

/-- The ceiling of the registry, for everything a unit retains while it is unfaulted. -/
structure Below (unit : RegistryEpoch) : Prop where
  registry : unit.logical.docType = .docRegistry
  epoch : unit.gate.epoch ≤ maxRegistryEpoch
  head : unit.receipts.fault = none → ∀ latest ∈ unit.receipts.latest,
    latest.closedEpoch < maxRegistryEpoch

theorem Sound.opening_lt (h : unit.Sound) (hbelow : unit.Below) {opening : Receipt}
    (hopening : unit.opening = some opening) : opening.closedEpoch < maxRegistryEpoch :=
  UInt64.lt_of_lt_of_le (lt_of_checkedAdd_one (h.opening.held opening hopening).2.1) hbelow.epoch

theorem Sound.retained_lt (h : unit.Sound) (hbelow : unit.Below)
    (hfault : unit.receipts.fault = none) :
    ∀ held ∈ unit.receipts.retained, held.closedEpoch < maxRegistryEpoch := by
  intro held hheld
  cases hmode : unit.adopting with
  | true =>
    apply ((h.adoption hmode).retained held hheld).2.1
    rw [h.scope]
    exact hbelow.registry
  | false =>
    rcases ReceiptBook.mem_retained.mp hheld with hlatest | hprior | ⟨pair, hpair, -⟩
    · exact hbelow.head hfault held hlatest
    · exact h.opening_lt hbelow ((h.ordinary hmode).previous held hprior).symm
    · rw [hfault] at hpair
      exact absurd hpair (Option.not_mem_none pair)

/-! ## The steps of an adoption -/

/-- The delivered receipt is of the unit's document and below the ceiling. -/
structure Selected (unit : RegistryEpoch) (receipt : Receipt) : Prop
    extends unit.Delivered receipt where
  document : receipt.document = unit.logical
  closed : receipt.closedEpoch < maxRegistryEpoch

/-- A quiet opening receipt is of another tenure, repaired away, or on the receipt's line. -/
theorem Sound.quiet_opening (h : unit.Sound) (hselected : unit.Selected receipt)
    (hopened : ¬ unit.OpenedBy receipt) (hfault : unit.receipts.fault = none)
    (hquiet : ∀ prior ∈ unit.receipts.anchors unit.opening,
      ¬ unit.receipts.Exposes receipt prior) {opening : Receipt}
    (hopening : unit.opening = some opening) :
    opening.tenureId ≠ receipt.tenureId ∨ unit.receipts.IsRepairedLoser opening ∨
      opening.selection = receipt.selection := by
  by_cases htenure : opening.tenureId = receipt.tenureId
  · by_cases hloser : unit.receipts.IsRepairedLoser opening
    · exact .inr (.inl hloser)
    · refine .inr (.inr (by_contra fun hselection => ?_))
      have hmem : opening ∈ unit.receipts.anchors unit.opening := by
        simp [ReceiptBook.anchors, hopening]
      apply hquiet opening hmem
      have hdocument := (h.opening.held opening hopening).1.trans h.scope
      refine ⟨⟨hdocument.trans hselected.document.symm, htenure, ?_, .inr hselection⟩, hloser⟩
      intro hhash
      have hsame := hselected.identity opening (.inr hopening) hhash
      rw [hsame] at hopening
      exact hopened ⟨hopening, h.unfaulted_phase hfault⟩
  · exact .inl htenure

/-- A selection that moves an unfaulted unit turns adoption on. -/
theorem Sound.flag_true (h : unit.Sound) (hfault : unit.receipts.fault = none)
    {outcome : ReceiptIngest} (hstale : outcome ≠ .stale) :
    (unit.adopting || decide (outcome ≠ .stale ∧ unit.phase ≠ .fault)) = true := by
  have hphase : unit.phase ≠ .fault := by
    unfold RegistryEpoch.phase
    rcases h.unfaulted_phase hfault with heq | heq <;> simp [heq]
  simp [hstale, hphase]

theorem Sound.bound_logical (h : unit.Sound) (hselected : unit.Selected receipt) :
    (unit.receipts.bound receipt).document = some unit.logical := by
  cases hdocument : unit.receipts.document with
  | none => simp [hdocument, hselected.document]
  | some document => simp [hdocument, h.document document hdocument]

section Steps

variable (h : unit.Sound) (hbelow : unit.Below) (hselected : unit.Selected receipt)
  (hfault : unit.receipts.fault = none)

include h hbelow hselected hfault

/-- A retained receipt of an adoption: the delivered one, or one the unit already held. -/
theorem Sound.adopted_receipt {held : Receipt}
    (hheld : held = receipt ∨ held ∈ unit.receipts.retained ∨ held ∈ unit.opening) :
    held.WellFormed ∧ held.document = unit.logical ∧ held.closedEpoch < maxRegistryEpoch ∧
      held.verifySignatureOnly = .ok () := by
  rcases hheld with rfl | hold | hopening
  · exact ⟨hselected.wellFormed, hselected.document, hselected.closed, hselected.signature⟩
  · exact ⟨h.retained_wellFormed held hold, h.retained_document held hold,
      h.retained_lt hbelow hfault held hold, h.retained_signature held hold⟩
  · rcases h.opening.held held hopening with ⟨hdocument, -, hsignature⟩
    exact ⟨h.openingRead held hopening, hdocument.trans h.scope, h.opening_lt hbelow hopening,
      hsignature⟩

/-- A unit that selects a checkpoint is sound once its evidence names a retained receipt, or
its anchors agree with its head. -/
theorem Sound.selecting {gate : EpochGate} {book : ReceiptBook} {head : Receipt}
    (hdocument : gate.document = unit.gate.document) (hepoch : gate.epoch = unit.gate.epoch)
    (hvalid : gate.inner.Valid) (hbound : book.document = some unit.logical)
    (hlatest : book.latest = some head) (htenure : book.tenure = some head.selection)
    (hresolved : book.resolvedRepair = unit.receipts.resolvedRepair)
    (hsequence : book.repairSequence = unit.receipts.repairSequence)
    (hretained : ∀ held ∈ book.retained,
      held = receipt ∨ held ∈ unit.receipts.retained ∨ held ∈ unit.opening)
    (hevidence : ∀ pair ∈ book.fault,
      pair.1.hash < pair.2.hash ∧ ReceiptsConflict pair.1 pair.2)
    (hphase : book.AdoptionPhaseOk gate.inner unit.opening head) :
    (unit.selecting gate book true).Sound := by
  have hfacts := fun held hheld => h.adopted_receipt hbelow hselected hfault (hretained held hheld)
  refine h.of_head rfl rfl hdocument hepoch hvalid hbound hlatest htenure hresolved hsequence
    ?_ ?_ ?_
  · intro held hheld
    exact ⟨(hfacts held hheld).1, (hfacts held hheld).2.1⟩
  · intro pair hpair
    rcases hevidence pair hpair with ⟨hless, hconflict⟩
    exact ⟨hless, hconflict, head, hlatest, .inr (.inr (.inl rfl))⟩
  · rw [selecting_adopting, if_pos rfl]
    refine ⟨⟨head, hlatest, hphase⟩, ?_⟩
    intro held hheld
    rcases hfacts held hheld with ⟨-, hin, hlt, hsignature⟩
    refine ⟨hin.trans ?_, fun _ => hlt, hsignature⟩
    rw [selecting_gate, hdocument, h.scope]

variable (hphase : unit.gate.inner.phase ≠ .settled)

include hphase

/-- Evidence raised from an anchor is recorded beside the head. -/
theorem Sound.raises {prior : Receipt} (hprior : prior ∈ unit.receipts.anchors unit.opening)
    (hconflict : ReceiptsConflict prior receipt) :
    (unit.selecting (unit.gate.withInner (unit.gate.inner.moved .fault none))
      (unit.receipts.raised prior receipt) true).Sound := by
  have hheld : prior ∈ unit.receipts.retained ∨ prior ∈ unit.opening := by
    rcases List.mem_append.mp hprior with hmem | hmem
    · exact .inr (Option.mem_toList.mp hmem)
    · exact .inl (ReceiptBook.mem_retained.mpr (.inr (.inl (Option.mem_toList.mp hmem))))
  have hhead : ∃ latest, unit.receipts.latest = some latest := by
    cases hlatest : unit.receipts.latest with
    | some latest => exact ⟨latest, rfl⟩
    | none =>
      have hopening := h.opening_eq_none hfault hlatest
      simp [ReceiptBook.anchors, hopening, h.rechecked.previous hlatest] at hprior
  rcases hhead with ⟨latest, hlatest⟩
  rcases h.of_latest hlatest with ⟨hbound, htenure⟩
  have hevidence := evidence_of_conflict hconflict
  refine h.selecting hbelow hselected hfault rfl rfl (h.valid.step (.faults hphase))
    hbound hlatest htenure rfl rfl ?_ ?_ ?_
  · intro held hmem
    rcases ReceiptBook.mem_retained_raised hmem with hold | rfl | rfl
    · exact .inr (.inl hold)
    · exact .inr hheld
    · exact .inl rfl
  · rintro pair ⟨⟩
    exact hevidence
  · refine ⟨_, rfl, hevidence.2, prior, List.mem_cons_of_mem _ hprior, ?_⟩
    exact eq_canonicalReceiptPair.mpr (.inl rfl)

/-- The receipt equivocates the head of a unit that selects it. -/
theorem Sound.equivocatesSelected {latest : Receipt}
    (hlatest : unit.receipts.latest = some latest) (hconflict : ReceiptsConflict latest receipt) :
    (unit.selecting (unit.gate.withInner (unit.gate.inner.moved .fault none))
      ((unit.receipts.bound receipt).equivocated latest receipt) true).Sound := by
  have hhead : latest ∈ unit.receipts.retained := ReceiptBook.mem_retained.mpr (.inl hlatest)
  have hevidence := evidence_of_conflict hconflict
  refine h.selecting hbelow hselected hfault rfl rfl (h.valid.step (.faults hphase))
    (h.bound_logical hselected) rfl rfl rfl rfl ?_ ?_ ?_
  · intro held hmem
    rcases ReceiptBook.mem_retained_equivocated hmem with rfl | rfl | hprior
    · exact .inr (.inl hhead)
    · exact .inl rfl
    · exact .inr (.inl (ReceiptBook.mem_retained.mpr (.inr (.inl hprior))))
  · rintro pair ⟨⟩
    exact hevidence
  · exact ⟨_, rfl, hevidence.2, _, List.mem_cons_self, .inl rfl⟩

/-- The receipt becomes the head of the unit that selects it. -/
theorem Sound.heads {previous : Option Receipt}
    (hprevious : ∀ prior ∈ previous, prior ∈ unit.receipts.retained ∧
      unit.receipts.AnchorOk receipt prior)
    (hopening : ∀ prior ∈ unit.opening, unit.receipts.AnchorOk receipt prior) :
    (unit.selecting (unit.gate.withInner (unit.gate.inner.moved .closing (some receipt.hash)))
      ((unit.receipts.bound receipt).headed receipt previous) true).Sound := by
  refine h.selecting hbelow hselected hfault rfl rfl (h.valid.step (.closes _ hphase))
    (h.bound_logical hselected) rfl rfl rfl rfl ?_ ?_ ?_
  · intro held hmem
    rcases ReceiptBook.mem_retained_headed hfault hmem with rfl | hprior
    · exact .inl rfl
    · exact .inr (.inl (hprevious held hprior).1)
  · intro pair hpair
    rw [ReceiptBook.headed_fault, ReceiptBook.bound_fault, hfault] at hpair
    exact absurd hpair (Option.not_mem_none pair)
  · exact ⟨hfault, rfl, fun prior hprior => (hprevious prior hprior).2, hopening⟩

/-- Selecting the head again seals the unit by it. -/
theorem Sound.reselects (hopened : ¬ unit.OpenedBy receipt)
    (hlatest : unit.receipts.latest = some receipt) :
    (unit.selecting (unit.gate.withInner (unit.gate.inner.moved .closing (some receipt.hash)))
      unit.receipts true).Sound := by
  rcases h.of_latest hlatest with ⟨hbound, htenure⟩
  have hanchors : (∀ prior ∈ unit.receipts.previousUntilInstalled,
      unit.receipts.AnchorOk receipt prior) ∧
      ∀ prior ∈ unit.opening, unit.receipts.AnchorOk receipt prior := by
    cases hmode : unit.adopting with
    | true =>
      rcases adopting_cases (h.adoption hmode) hfault with ⟨-, head, hhead, -, hanchors⟩
      rw [hlatest] at hhead
      cases hhead
      exact hanchors
    | false =>
      have hold := h.ordinary hmode
      rcases unfaulted_cases hold hfault with ⟨hopen, hsame⟩ | ⟨-, head, hhead, hclosed, -, hline⟩
      · exact absurd ⟨hsame.symm.trans hlatest, .inl hopen⟩ hopened
      · rw [hlatest] at hhead
        cases hhead
        have hopening : ∀ prior ∈ unit.opening, unit.receipts.AnchorOk receipt prior := by
          intro prior hprior
          have hless := lt_of_checkedAdd_one (h.opening.held prior hprior).2.1
          rw [← hclosed] at hless
          exact (hline prior hprior).imp id fun hselection => .inr ⟨hless, hselection⟩
        exact ⟨fun prior hprior => hopening prior (hold.previous prior hprior).symm, hopening⟩
  refine h.selecting hbelow hselected hfault rfl rfl (h.valid.step (.closes _ hphase))
    hbound hlatest htenure rfl rfl
    (fun held hmem => .inr (.inl hmem)) ?_ ⟨hfault, rfl, hanchors⟩
  intro pair hpair
  rw [hfault] at hpair
  exact absurd hpair (Option.not_mem_none pair)

/-- An installed selection keeps a unit sound. -/
theorem Sound.installs (hopened : ¬ unit.OpenedBy receipt)
    (hquiet : ∀ prior ∈ unit.receipts.anchors unit.opening,
      ¬ unit.receipts.Exposes receipt prior)
    {outcome : ReceiptIngest} {next : ReceiptBook} {latest : Receipt}
    (hingested : unit.receipts.Ingested receipt outcome next)
    (hstale : outcome ≠ .stale) (hnofault : outcome ≠ .fault)
    (hlatest : next.latest = some latest) :
    (unit.selecting (unit.gate.withInner (unit.gate.inner.moved .closing (some latest.hash)))
      next true).Sound := by
  cases hingested with
  | faulted | equivocation => exact absurd rfl hnofault
  | screened | stale => exact absurd rfl hstale
  | first _ _ hnone =>
    cases hlatest
    refine h.heads hbelow hselected hfault hphase ?_ ?_
    · intro prior hprior
      rw [h.rechecked.previous hnone] at hprior
      exact absurd hprior (Option.not_mem_none prior)
    · intro prior hprior
      rw [h.opening_eq_none hfault hnone] at hprior
      exact absurd hprior (Option.not_mem_none prior)
  | @succession head _ _ hhead htenure =>
    cases hlatest
    refine h.heads hbelow hselected hfault hphase ?_ ?_
    · rintro prior ⟨⟩
      exact ⟨ReceiptBook.mem_retained.mpr (.inl hhead), .inl htenure⟩
    · intro prior hprior
      rcases h.quiet_opening hselected hopened hfault hquiet hprior with hne | hloser | hline
      · exact .inl hne
      · exact .inr (.inl hloser)
      · -- The head between the two would be of their common tenure.
        have hsame : prior.tenureId = receipt.tenureId := congrArg TenureSelection.tenureId hline
        exact absurd (hselected.lineage hfault prior hprior head hhead hsame) htenure
  | @advance head _ _ hhead hselection hless =>
    cases hlatest
    refine h.heads hbelow hselected hfault hphase ?_ ?_
    · rintro prior ⟨⟩
      exact ⟨ReceiptBook.mem_retained.mpr (.inl hhead), .inr (.inr ⟨hless, hselection⟩)⟩
    · intro prior hprior
      rcases h.quiet_opening hselected hopened hfault hquiet hprior with hne | hloser | hline
      · exact .inl hne
      · exact .inr (.inl hloser)
      · have hsame : prior.tenureId = head.tenureId :=
          congrArg TenureSelection.tenureId (hline.trans hselection.symm)
        rcases h.opening_below hfault hprior hhead hsame with hloser | ⟨hle, -⟩
        · exact .inr (.inl hloser)
        · exact .inr (.inr ⟨UInt64.lt_of_le_of_lt hle hless, hline⟩)
  | @duplicate head _ _ hhead _ _ hhash =>
    have hsame := hselected.identity head (.inl (ReceiptBook.mem_retained.mpr (.inl hhead))) hhash
    subst hsame
    rw [bound_eq_self (h.document_ne_none (.inl (by simp [hhead])))] at hlatest ⊢
    rw [hhead] at hlatest
    cases hlatest
    exact h.reselects hbelow hselected hfault hphase hopened hhead

end Steps

/-- Every outcome of a selection keeps a unit sound. -/
theorem Sound.adopted (h : unit.Sound) (hbelow : unit.Below) (hselected : unit.Selected receipt)
    (hopened : ¬ unit.OpenedBy receipt) (hphase : unit.gate.inner.phase ≠ .settled)
    {outcome : ReceiptIngest} {gate : EpochGate} {book : ReceiptBook}
    (hadopted : unit.receipts.Adopted unit.gate unit.opening receipt outcome gate book) :
    (unit.selecting gate book
      (unit.adopting || decide (outcome ≠ .stale ∧ unit.phase ≠ .fault))).Sound := by
  cases hadopted with
  | faulted hfault =>
    have hsame : unit.phase = .fault := h.faulted_phase hfault
    simpa [hsame] using h
  | screened | stale => simpa using h
  | raises hfault _ hprior hexposes =>
    rw [h.flag_true hfault (by simp)]
    exact h.raises hbelow hselected hfault hphase hprior hexposes.1
  | equivocates hfault _ _ hingested =>
    rw [h.flag_true hfault (by simp)]
    cases hingested with
    | faulted hne => exact absurd hfault hne
    | @equivocation latest _ _ hlatest htenure hdiffers =>
      have hhead : latest ∈ unit.receipts.retained :=
        ReceiptBook.mem_retained.mpr (.inl hlatest)
      refine h.equivocatesSelected hbelow hselected hfault hphase hlatest
        (ReceiptBook.conflict_of_differs ?_ htenure hdiffers ?_)
      · exact (h.retained_document latest hhead).trans hselected.document.symm
      · exact hselected.identity latest (.inl hhead)
  | selects hfault _ hquiet hingested hstale hnofault _ hlatest =>
    rw [h.flag_true hfault hstale]
    exact h.installs hbelow hselected hfault hphase hopened hquiet hingested hstale hnofault
      hlatest

/-- A selected checkpoint keeps a unit sound as long as the head it leaves behind is below
the registry's ceiling. -/
theorem Sound.beginCheckpointAdoption (h : unit.Sound) (hbelow : unit.Below)
    (group : OwnerAuthority) (start : UInt64)
    (hknown : ∀ verified, receipt.verifyCurrentOwner group start = .ok verified →
      unit.Delivered receipt) :
    (unit.beginCheckpointAdoption receipt group start).2.Sound := by
  unfold RegistryEpoch.beginCheckpointAdoption
  cases hverified : receipt.verifyCurrentOwner group start with
  | error error => exact h
  | ok verified =>
    dsimp only
    split <;> rename_i hscope
    · exact h
    · split <;> rename_i hclosed
      · exact h
      · split <;> rename_i hpending
        · exact h
        · split <;> rename_i hopened
          · exact h
          · have hselected : unit.Selected receipt :=
              ⟨hknown verified hverified, not_not.mp hscope, UInt64.not_le.mp hclosed⟩
            rcases ReceiptBook.ingestAdoption_spec h.coherent.tenure receipt group start unit.gate
                unit.opening with ⟨error, heq⟩ |
                  ⟨_, outcome, gate, book, -, -, hphase, hadopted, heq⟩
            · rw [heq]
              exact h
            · rw [heq]
              exact h.adopted hbelow hselected hopened hphase hadopted

end Adopting

end RegistryEpoch

end Mewtual
