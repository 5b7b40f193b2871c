import Mewtual.Registry.Adopting

/-!
# Runs of a registry unit

Every interleaving of admissions, owner updates, delivered receipts and checkpoint
selections, from a fresh unit or from one that was restored.

Main results:

- Theorem {lit}`RegistryEpoch.ordinary_run_reopens`: an ordinary unit reopens after every run.
- Theorem {lit}`RegistryEpoch.adopting_run_reopens`: so does a unit that adopts checkpoints
  below the registry's ceiling.
- Theorem {lit}`RegistryEpoch.run_along`: what a unit keeps along every run.
- Theorem {lit}`RegistryEpoch.shared_start_strands`: two owners of one tenure start leave a
  book that cannot be read back.
- Theorem {lit}`RegistryEpoch.sealed_ceiling_strands`: a sealed terminal epoch that then
  adopts a checkpoint does not reopen.
-/

namespace Mewtual

/-! ## What one operation keeps -/

namespace ReceiptBook

/-- What a delivered receipt may do to the records of a book. -/
structure Follows (book : ReceiptBook) (opening : Option Receipt) (receipt : Receipt)
    (next : ReceiptBook) : Prop where
  retained : ∀ held ∈ next.retained,
    held ∈ book.retained ∨ held ∈ opening ∨ held = receipt
  fault : next.fault = none → book.fault = none
  latest : next.fault = none → next.latest = book.latest ∨ next.latest = some receipt

section Follows

variable {book next : ReceiptBook} {opening : Option Receipt} {receipt : Receipt}

theorem Follows.refl (book : ReceiptBook) (opening : Option Receipt) (receipt : Receipt) :
    book.Follows opening receipt book :=
  ⟨fun _ hmem => .inl hmem, id, fun _ => .inl rfl⟩

theorem Follows.bound (book : ReceiptBook) (opening : Option Receipt) (receipt : Receipt) :
    book.Follows opening receipt (book.bound receipt) :=
  ⟨fun _ hmem => .inl hmem, id, fun _ => .inl rfl⟩

theorem Follows.headed {previous : Option Receipt}
    (hprevious : ∀ held ∈ previous, held ∈ book.retained) :
    book.Follows opening receipt ((book.bound receipt).headed receipt previous) := by
  refine ⟨?_, id, fun _ => .inr rfl⟩
  intro held hmem
  rcases mem_retained.mp hmem with hlatest | hprior | hpair
  · exact .inr (.inr (Option.some.inj hlatest).symm)
  · exact .inl (hprevious held hprior)
  · exact .inl (mem_retained.mpr (.inr (.inr hpair)))

theorem Ingested.follows [Crypto] {outcome : ReceiptIngest}
    (hingested : book.Ingested receipt outcome next) : book.Follows opening receipt next := by
  cases hingested with
  | faulted | screened | duplicate | stale => exact .bound book opening receipt
  | first => exact .headed fun held hprior => mem_retained.mpr (.inr (.inl hprior))
  | succession _ _ hlatest | advance _ _ hlatest =>
    refine .headed ?_
    rintro held ⟨⟩
    exact mem_retained.mpr (.inl hlatest)
  | equivocation _ _ hlatest =>
    refine ⟨?_, nofun, nofun⟩
    intro held hmem
    rcases mem_retained_equivocated hmem with rfl | rfl | hprior
    · exact .inl (mem_retained.mpr (.inl hlatest))
    · exact .inr (.inr rfl)
    · exact .inl (mem_retained.mpr (.inr (.inl hprior)))

theorem Follows.raised [Crypto] {prior : Receipt}
    (hprior : prior ∈ book.retained ∨ prior ∈ opening) :
    book.Follows opening receipt (book.raised prior receipt) := by
  refine ⟨?_, nofun, nofun⟩
  intro held hmem
  rcases mem_retained_raised hmem with hold | rfl | rfl
  · exact .inl hold
  · exact hprior.imp id .inl
  · exact .inr (.inr rfl)

theorem Adopted.follows [Crypto] {gate gate' : EpochGate} {outcome : ReceiptIngest}
    (hadopted : book.Adopted gate opening receipt outcome gate' next) :
    book.Follows opening receipt next := by
  cases hadopted with
  | faulted | screened | stale => exact .refl book opening receipt
  | equivocates _ _ _ hingested | selects _ _ _ hingested => exact hingested.follows
  | @raises prior _ _ hprior _ =>
    refine .raised ?_
    rcases List.mem_append.mp hprior with hmem | hmem
    · exact .inr (Option.mem_toList.mp hmem)
    · exact .inl (mem_retained.mpr (.inr (.inl (Option.mem_toList.mp hmem))))

end Follows

end ReceiptBook

namespace RegistryEpoch

/-- What an operation that supplies the given receipt keeps of a unit. -/
structure Frame (unit : RegistryEpoch) (supplied : Option Receipt) (next : RegistryEpoch) :
    Prop where
  logical : next.logical = unit.logical
  opening : next.opening = unit.opening
  epoch : next.gate.epoch = unit.gate.epoch
  receipts : next.receipts = unit.receipts ∨ ∃ receipt, supplied = some receipt ∧
    unit.receipts.Follows unit.opening receipt next.receipts

section Frame

variable [Crypto] {unit : RegistryEpoch} {receipt : Receipt}

omit [Crypto] in
theorem Frame.gate {gate : EpochGate} {supplied : Option Receipt}
    (hepoch : gate.epoch = unit.gate.epoch) :
    Frame unit supplied (unit.updated gate unit.receipts) :=
  ⟨rfl, rfl, hepoch, .inl rfl⟩

theorem verifiedReceipt_eq_some {group : OwnerAuthority} {start : UInt64}
    {verified : VerifiedReceipt}
    (hverified : receipt.verifyCurrentOwner group start = .ok verified) :
    verifiedReceipt receipt group start = some receipt := by
  rw [verifiedReceipt, hverified]

theorem Sound.adoption_frame (h : unit.Sound) (receipt : Receipt) (group : OwnerAuthority)
    (start : UInt64) :
    Frame unit (verifiedReceipt receipt group start)
      (unit.beginCheckpointAdoption receipt group start).2 := by
  have hsame : Frame unit (verifiedReceipt receipt group start) unit := .gate rfl
  unfold RegistryEpoch.beginCheckpointAdoption
  cases hverified : receipt.verifyCurrentOwner group start with
  | error error => exact hsame
  | ok verified =>
    dsimp only
    split
    · exact hsame
    · split
      · exact hsame
      · split
        · exact hsame
        · split
          · exact hsame
          · rcases ReceiptBook.ingestAdoption_spec h.coherent.tenure receipt group start unit.gate
                unit.opening with ⟨error, heq⟩ | ⟨_, outcome, gate, book, -, -, -, hadopted, heq⟩
            · rw [heq]
              exact hsame
            · rw [heq]
              refine ⟨rfl, rfl, ?_, .inr ⟨receipt, verifiedReceipt_eq_some hverified,
                hadopted.follows⟩⟩
              cases hadopted <;> rfl

theorem Sound.ordinary_frame (h : unit.Sound) (receipt : Receipt) (group : OwnerAuthority)
    (start : UInt64) :
    Frame unit (verifiedReceipt receipt group start)
      (unit.sealOrdinary receipt group start).2 := by
  unfold RegistryEpoch.sealOrdinary
  split <;> rename_i hroute
  · rename_i opening
    have hopening := Option.eq_some_of_filter_eq_some hroute
    rcases unit.receipts.checkOpeningReceipt_spec receipt opening group start unit.gate with
      ⟨error, heq⟩ | ⟨verified, outcome, gate, book, hverified, -, -, -, hchecked, heq⟩
    · rw [heq]
      exact .gate rfl
    · rw [heq]
      cases hchecked with
      | faulted | screened | duplicate => exact .gate rfl
      | raises =>
        exact ⟨rfl, rfl, rfl, .inr ⟨receipt, verifiedReceipt_eq_some hverified,
          .raised (.inr hopening)⟩⟩
  · rcases unit.receipts.ingestAndSeal_spec receipt group start unit.gate with
      ⟨error, heq⟩ | ⟨verified, outcome, next, inner, hverified, -, -, hingest, -, heq⟩
    · rw [heq]
      exact .gate rfl
    · rw [heq]
      have hstep : (unit.receipts.ingestVerified receipt).1 = .ok outcome := by rw [hingest]
      have hingested := (ReceiptBook.ingestVerified_ingested h.coherent.tenure hstep).2
      rw [hingest] at hingested
      exact ⟨rfl, rfl, rfl, .inr ⟨receipt, verifiedReceipt_eq_some hverified, hingested.follows⟩⟩

/-! ## One operation -/

/-- An outstanding repair belongs to an adopting unit. -/
theorem adopting_of_pending (hpending : unit.repairInstallPending = true) :
    unit.adopting = true := by
  rw [repairInstallPending, Option.any_eq_true] at hpending
  rcases hpending with ⟨state, hstate, hpending⟩
  rw [repairState, Option.bind_eq_some_iff] at hstate
  rcases hstate with ⟨binding, -, hstate⟩
  unfold RepairBinding.state at hstate
  split at hstate
  · cases hstate
  · split at hstate
    · cases hstate
    · cases hstate
      simp only [decide_eq_true_eq] at hpending
      exact hpending.2.1

theorem Sound.updateOwner (h : unit.Sound) (owner : DeviceId) :
    (unit.updated (unit.gate.updateOwner owner) unit.receipts).Sound :=
  h.same_lifecycle (h.valid.step (.owner _ owner)) ⟨rfl, rfl, rfl, rfl⟩

theorem Sound.admitLocal (h : unit.Sound) (op : AdmittedOperation) :
    (unit.updated (unit.gate.admitLocal op).2 unit.receipts).Sound := by
  rcases unit.gate.admitLocal_spec op with ⟨-, -, hnext, hstep⟩ | ⟨-, hsame⟩
  · rw [hnext]
    exact h.same_lifecycle (h.valid.step hstep) ⟨rfl, rfl, rfl, rfl⟩
  · rw [hsame]
    exact h

theorem Sound.admitInbound (h : unit.Sound) (op : AdmittedOperation) :
    (unit.updated (unit.gate.admitInbound op).2 unit.receipts).Sound := by
  unfold EpochGate.admitInbound
  rcases unit.gate.inner.admitInboundLocked_spec op with
    ⟨-, -, hnext, hstep⟩ | ⟨-, hsame | ⟨-, -, hnext, hstep⟩⟩
  · simp only [hnext]
    exact h.same_lifecycle (h.valid.step hstep) ⟨rfl, rfl, rfl, rfl⟩
  · simp only [hsame]
    exact h
  · simp only [hnext]
    exact h.same_lifecycle (h.valid.step hstep) ⟨rfl, rfl, rfl, rfl⟩

/-- When a checkpoint may be selected. A delivered receipt is routed to adoption only by a
unit that already adopts. -/
def MayAdopt (unit : RegistryEpoch) : Event → Prop
  | .adopt .. => unit.Below
  | .sealReceipt .. => unit.adopting = true → unit.Below
  | _ => True

/-- A delivered receipt keeps a unit sound. -/
theorem Sound.sealReceipt (h : unit.Sound) (group : OwnerAuthority) (start : UInt64)
    (hbelow : unit.adopting = true → unit.Below)
    (hknown : ∀ verified, receipt.verifyCurrentOwner group start = .ok verified →
      unit.Delivered receipt) :
    (unit.sealReceipt receipt group start).2.Sound ∧
      Frame unit (verifiedReceipt receipt group start)
        (unit.sealReceipt receipt group start).2 := by
  unfold RegistryEpoch.sealReceipt
  split <;> rename_i hpending
  · exact ⟨h.beginCheckpointAdoption (hbelow (adopting_of_pending hpending)) group start hknown,
      h.adoption_frame receipt group start⟩
  · unfold refreshOwner
    by_cases hscope : group.groupId ≠ unit.logical.serverId
    · rw [if_pos hscope]
      exact ⟨h, .gate rfl⟩
    · rw [if_neg hscope]
      cases howner : group.designatedCommitter with
      | none => exact ⟨h, .gate rfl⟩
      | some owner =>
        dsimp only
        -- The refreshed unit differs from the delivered-to unit in its owner only.
        have hrefreshed := h.updateOwner owner
        have hdelivered : ∀ verified, receipt.verifyCurrentOwner group start = .ok verified →
            (unit.updated (unit.gate.updateOwner owner) unit.receipts).Delivered receipt :=
          fun verified hverified =>
            have hold := hknown verified hverified
            ⟨hold.wellFormed, hold.signature, hold.identity, hold.lineage⟩
        split <;> rename_i hmode
        · have hlow := hbelow hmode
          have hframe := hrefreshed.adoption_frame receipt group start
          exact ⟨hrefreshed.beginCheckpointAdoption ⟨hlow.registry, hlow.epoch, hlow.head⟩ group
            start hdelivered, ⟨hframe.logical, hframe.opening, hframe.epoch, hframe.receipts⟩⟩
        · rw [Bool.not_eq_true] at hmode
          have hframe := hrefreshed.ordinary_frame receipt group start
          exact ⟨hrefreshed.sealOrdinary hmode group start hdelivered,
            ⟨hframe.logical, hframe.opening, hframe.epoch, hframe.receipts⟩⟩

/-- Every operation keeps a unit sound. -/
theorem Sound.step (h : unit.Sound) (event : Event) (hadopt : unit.MayAdopt event)
    (hknown : ∀ receipt ∈ event.supplied, unit.Delivered receipt) :
    (unit.step event).Sound ∧ Frame unit event.supplied (unit.step event) := by
  cases event with
  | admitLocal op =>
    refine ⟨h.admitLocal op, .gate ?_⟩
    rcases unit.gate.admitLocal_step op with ⟨inner, hnext, -⟩
    rw [hnext, EpochGate.withInner_epoch]
  | admitInbound op => exact ⟨h.admitInbound op, .gate rfl⟩
  | updateOwner owner => exact ⟨h.updateOwner owner, .gate rfl⟩
  | sealReceipt receipt group start =>
    refine h.sealReceipt group start hadopt ?_
    exact fun verified hverified => hknown receipt (verifiedReceipt_eq_some hverified)
  | adopt receipt group start =>
    refine ⟨h.beginCheckpointAdoption hadopt group start ?_, h.adoption_frame receipt group start⟩
    exact fun verified hverified => hknown receipt (verifiedReceipt_eq_some hverified)

end Frame

/-! ## Whole runs -/

/-- Tenure starts do not decrease, and one start belongs to one owner key. -/
def TenureOrdered (earlier later : Receipt) : Prop :=
  earlier.tenureStartGroupEpoch ≤ later.tenureStartGroupEpoch ∧
    (earlier.tenureStartGroupEpoch = later.tenureStartGroupEpoch →
      earlier.ownerPublicKey = later.ownerPublicKey)

instance (earlier later : Receipt) : Decidable (TenureOrdered earlier later) :=
  inferInstanceAs (Decidable (_ ∧ _))

/-- The receipts a unit stands on: the one that opened it and its head. -/
def heads (unit : RegistryEpoch) : List Receipt :=
  unit.opening.toList ++ unit.receipts.latest.toList

/-- The receipts a unit keeps and a run supplies. -/
def known [Crypto] (unit : RegistryEpoch) (events : List Event) : Set Receipt :=
  {receipt | receipt ∈ unit.opening ∨ receipt ∈ unit.receipts.retained ∨
    receipt ∈ supplied events}

/-- What is assumed of the verified receipts a run supplies: they are canonical records,
their tenures follow one another, and their hashes do not collide. -/
structure Supplies [Crypto] (unit : RegistryEpoch) (events : List Event) : Prop where
  canonical : ∀ receipt ∈ supplied events, Receipt.decode receipt.encode = .ok receipt
  ordered : (unit.heads ++ supplied events).Pairwise TenureOrdered
  collisionFree : Receipt.CollisionFree (unit.known events)

section Runs

variable [Crypto] {unit state : RegistryEpoch} {past : List Event} {event : Event}

theorem supplied_concat (past : List Event) (event : Event) :
    supplied (past ++ [event]) = supplied past ++ event.supplied.toList := by
  cases hsupplied : event.supplied with
  | none | some => simp [supplied, hsupplied]

theorem supplied_subset_concat (past : List Event) (event : Event) :
    supplied past ⊆ supplied (past ++ [event]) := by
  rw [supplied_concat]
  exact List.subset_append_left _ _

theorem known_mono {events : List Event} (hsub : supplied past ⊆ supplied events) :
    unit.known past ⊆ unit.known events :=
  fun _ hknown => hknown.imp_right (Or.imp_right (hsub ·))

theorem Supplies.shorter (h : unit.Supplies (past ++ [event])) : unit.Supplies past := by
  have hsub := supplied_subset_concat past event
  refine ⟨fun receipt hmem => h.canonical receipt (hsub hmem), ?_,
    h.collisionFree.mono (known_mono hsub)⟩
  have hordered := h.ordered
  rw [supplied_concat, ← List.append_assoc] at hordered
  exact (List.pairwise_append.mp hordered).1

theorem Supplies.nothing {events : List Event} (h : unit.Supplies events) :
    unit.Supplies [] := by
  refine ⟨fun receipt hmem => absurd hmem List.not_mem_nil, ?_,
    h.collisionFree.mono (known_mono (List.nil_subset _))⟩
  rw [supplied, List.filterMap_nil, List.append_nil]
  exact (List.pairwise_append.mp h.ordered).1

/-- Everything before the last operation precedes the receipt it supplies. -/
theorem Supplies.precedes (h : unit.Supplies (past ++ [event])) {receipt : Receipt}
    (hsupplied : event.supplied = some receipt) {held : Receipt}
    (hheld : held ∈ unit.heads ∨ held ∈ supplied past) : TenureOrdered held receipt := by
  have hordered := h.ordered
  rw [supplied_concat, hsupplied, ← List.append_assoc] at hordered
  refine (List.pairwise_append.mp hordered).2.2 held (List.mem_append.mpr hheld) receipt ?_
  exact List.mem_singleton_self receipt

theorem signature_of_supplied {receipt : Receipt} (hsupplied : event.supplied = some receipt) :
    receipt.verifySignatureOnly = .ok () := by
  have hverified : ∀ (delivered : Receipt) group start,
      verifiedReceipt delivered group start = some receipt →
      receipt.verifySignatureOnly = .ok () := by
    intro delivered group start hsome
    unfold verifiedReceipt at hsome
    split at hsome
    · rename_i verified hok
      cases hsome
      exact (Receipt.verifyCurrentOwner_eq_ok hok).2.2.2.2
    · cases hsome
  cases event with
  | admitLocal | admitInbound | updateOwner => cases hsupplied
  | sealReceipt delivered group start | adopt delivered group start =>
    exact hverified delivered group start hsupplied

/-- Tenure identifiers of receipts of one server agree when owner and start do. -/
theorem tenureId_congr {left right : Receipt} (hl : left.SelfConsistent)
    (hr : right.SelfConsistent) (hserver : left.document.serverId = right.document.serverId)
    (howner : left.ownerPublicKey = right.ownerPublicKey)
    (hstart : left.tenureStartGroupEpoch = right.tenureStartGroupEpoch) :
    left.tenureId = right.tenureId := by
  rw [hl.tenureId, hr.tenureId, hserver, howner, hstart]

/-- What holds of a unit along a run. -/
structure Along (unit : RegistryEpoch) (past : List Event) (state : RegistryEpoch) : Prop where
  sound : state.Sound
  logical : state.logical = unit.logical
  opening : state.opening = unit.opening
  epoch : state.gate.epoch = unit.gate.epoch
  retained : ∀ held ∈ state.receipts.retained, held ∈ unit.known past
  head : state.receipts.fault = none → ∀ latest ∈ state.receipts.latest,
    latest ∈ unit.heads ∨ latest ∈ supplied past
  ordered : state.receipts.fault = none → ∀ opening ∈ state.opening,
    ∀ latest ∈ state.receipts.latest, TenureOrdered opening latest

theorem Sound.along (h : unit.Sound) (hsupplies : unit.Supplies []) : unit.Along [] unit where
  sound := h
  logical := rfl
  opening := rfl
  epoch := rfl
  retained := fun held hmem => .inr (.inl hmem)
  head := fun _ latest hmem => .inl (List.mem_append_right _ (Option.mem_toList.mpr hmem))
  ordered := by
    intro _ opening hopening latest hlatest
    have hordered := hsupplies.ordered
    rw [supplied, List.filterMap_nil, List.append_nil] at hordered
    exact (List.pairwise_append.mp hordered).2.2 opening (Option.mem_toList.mpr hopening) latest
      (Option.mem_toList.mpr hlatest)

/-- The receipt supplied next stands in the assumed relation to the unit it reaches. -/
theorem Along.delivered (h : unit.Along past state)
    (hsupplies : unit.Supplies (past ++ [event])) {receipt : Receipt}
    (hsupplied : event.supplied = some receipt) : state.Delivered receipt := by
  have hmem : receipt ∈ supplied (past ++ [event]) := by
    rw [supplied_concat, hsupplied]
    exact List.mem_append_right _ (List.mem_singleton_self receipt)
  have hread := (Receipt.encode_of_decode (hsupplies.canonical receipt hmem)).2
  have hknown : ∀ held, held ∈ state.receipts.retained ∨ held ∈ state.opening →
      held ∈ unit.known (past ++ [event]) ∧ held.WellFormed ∧ held.document = state.logical := by
    rintro held (hheld | hopening)
    · exact ⟨known_mono (supplied_subset_concat past event) (h.retained held hheld),
        h.sound.retained_wellFormed held hheld, h.sound.retained_document held hheld⟩
    · refine ⟨.inl (h.opening ▸ hopening), h.sound.openingRead held hopening, ?_⟩
      exact (h.sound.opening.held held hopening).1.trans h.sound.scope
  refine ⟨hread, signature_of_supplied hsupplied, ?_, ?_⟩
  · intro held hheld hhash
    rcases hknown held hheld with ⟨hin, hwf, -⟩
    exact Receipt.hash_inj hsupplies.collisionFree hin (.inr (.inr hmem)) hwf.toSelfConsistent
      hread.toSelfConsistent hhash
  · intro hfault opening hopening latest hlatest htenure
    rcases hknown opening (.inr hopening) with ⟨hopenIn, hopenWf, hopenDocument⟩
    rcases hknown latest (.inl (ReceiptBook.mem_retained.mpr (.inl hlatest))) with
      ⟨-, hlatestWf, hlatestDocument⟩
    -- Opening, head and receipt are ordered, and the outer two start together.
    have hfirst := h.ordered hfault opening hopening latest hlatest
    have hsecond := hsupplies.precedes hsupplied (h.head hfault latest hlatest)
    have hends := Receipt.tenureId_inj hsupplies.collisionFree hopenIn (.inr (.inr hmem))
      hopenWf.toSelfConsistent hread.toSelfConsistent htenure
    have hstart : opening.tenureStartGroupEpoch = latest.tenureStartGroupEpoch :=
      UInt64.le_antisymm hfirst.1 (by rw [hends.2]; exact hsecond.1)
    rw [← htenure]
    refine tenureId_congr hlatestWf.toSelfConsistent hopenWf.toSelfConsistent ?_ ?_ hstart.symm
    · rw [hlatestDocument, hopenDocument]
    · exact (hfirst.2 hstart).symm

/-- One operation of a run. -/
theorem Along.step (h : unit.Along past state) (hsupplies : unit.Supplies (past ++ [event]))
    (hadopt : state.MayAdopt event) : unit.Along (past ++ [event]) (state.step event) := by
  have hdelivered : ∀ receipt ∈ event.supplied, state.Delivered receipt :=
    fun receipt hmem => h.delivered hsupplies hmem
  rcases h.sound.step event hadopt hdelivered with ⟨hsound, hframe⟩
  have hgrow : unit.known past ⊆ unit.known (past ++ [event]) :=
    known_mono (supplied_subset_concat past event)
  refine ⟨hsound, hframe.logical.trans h.logical, hframe.opening.trans h.opening,
    hframe.epoch.trans h.epoch, ?_, ?_, ?_⟩
  · intro held hheld
    rcases hframe.receipts with hsame | ⟨receipt, hsupplied, hfollows⟩
    · rw [hsame] at hheld
      exact hgrow (h.retained held hheld)
    · rcases hfollows.retained held hheld with hold | hopening | rfl
      · exact hgrow (h.retained held hold)
      · exact .inl (h.opening ▸ hopening)
      · refine .inr (.inr ?_)
        rw [supplied_concat, hsupplied]
        exact List.mem_append_right _ (List.mem_singleton_self held)
  · intro hfault latest hlatest
    rw [supplied_concat]
    rcases hframe.receipts with hsame | ⟨receipt, hsupplied, hfollows⟩
    · rw [hsame] at hfault hlatest
      exact (h.head hfault latest hlatest).imp id (List.mem_append_left _)
    · rcases hfollows.latest hfault with hkept | hnew
      · rw [hkept] at hlatest
        exact (h.head (hfollows.fault hfault) latest hlatest).imp id (List.mem_append_left _)
      · rw [hnew] at hlatest
        cases hlatest
        rw [hsupplied]
        exact .inr (List.mem_append_right _ (List.mem_singleton_self latest))
  · intro hfault opening hopening latest hlatest
    rw [hframe.opening] at hopening
    rcases hframe.receipts with hsame | ⟨receipt, hsupplied, hfollows⟩
    · rw [hsame] at hfault hlatest
      exact h.ordered hfault opening hopening latest hlatest
    · rcases hfollows.latest hfault with hkept | hnew
      · rw [hkept] at hlatest
        exact h.ordered (hfollows.fault hfault) opening hopening latest hlatest
      · rw [hnew] at hlatest
        cases hlatest
        refine hsupplies.precedes hsupplied (.inl (List.mem_append_left _ ?_))
        rw [← h.opening]
        exact Option.mem_toList.mpr hopening

end Runs

/-! ## Where a run starts -/

/-- A unit as it is first made: epoch zero with an empty book, or the epoch a receipt's
checkpoint opens, whose book has ingested that one receipt. -/
inductive Fresh [Crypto] : RegistryEpoch → Prop where
  | epochZero {logical : LogicalDocument} (owner : DeviceId) (hbounded : logical.Bounded) :
      Fresh (epochZero logical owner)
  | opened {receipt : Receipt} {epoch : UInt64} (owner : DeviceId)
      (hcanonical : Receipt.decode receipt.encode = .ok receipt)
      (hsignature : receipt.verifySignatureOnly = .ok ())
      (hepoch : checkedAdd receipt.closedEpoch 1 = some epoch) :
      Fresh (opened receipt epoch owner)

section Start

variable [Crypto]

theorem ingest_empty (receipt : Receipt) :
    ReceiptBook.empty.ingestVerified receipt
      = (.ok .advanced, (ReceiptBook.empty.bound receipt).headed receipt none) := by
  rfl

theorem epochZero_sound {logical : LogicalDocument} (owner : DeviceId)
    (hbounded : logical.Bounded) : (epochZero logical owner).Sound where
  valid := .empty owner
  scope := rfl
  bounded := hbounded
  storable := ⟨forall_mem_none, forall_mem_none, forall_mem_none, forall_mem_none, rfl⟩
  derived := rfl
  rechecked := ⟨rfl, fun _ => rfl, forall_mem_none,
    fun _ hmem => absurd hmem List.not_mem_nil, forall_mem_none⟩
  document := forall_mem_none
  opening := ⟨forall_mem_none, fun _ => rfl⟩
  openingRead := forall_mem_none
  restart := ⟨forall_mem_none, fun _ hmem => absurd hmem List.not_mem_nil, rfl, rfl⟩

theorem opened_sound {receipt : Receipt} {epoch : UInt64} (owner : DeviceId)
    (hread : receipt.WellFormed) (hsignature : receipt.verifySignatureOnly = .ok ())
    (hepoch : checkedAdd receipt.closedEpoch 1 = some epoch) :
    (opened receipt epoch owner).Sound := by
  have hbook : (opened receipt epoch owner).receipts
      = (ReceiptBook.empty.bound receipt).headed receipt none := by
    rw [opened, ingest_empty]
  have hhead : ∀ held ∈ some receipt, held = receipt := fun held hmem => (Option.some.inj hmem).symm
  have hretained : ∀ held ∈ (opened receipt epoch owner).receipts.retained, held = receipt := by
    rw [hbook]
    intro held hmem
    rcases ReceiptBook.mem_retained.mp hmem with hlatest | hprior | ⟨pair, hpair, -⟩
    · exact hhead held hlatest
    · exact absurd hprior (Option.not_mem_none held)
    · exact absurd hpair (Option.not_mem_none pair)
  refine ⟨.empty owner, rfl, hread.document, ?_, ?_, ?_, ?_, ⟨?_, nofun⟩, ?_, ?_, ?_, ?_⟩
  · rw [hbook]
    exact ⟨fun held hmem => hhead held hmem ▸ hread, forall_mem_none, forall_mem_none,
      forall_mem_none, rfl⟩
  · rw [hbook]
    rfl
  · rw [hbook]
    exact ⟨rfl, nofun, forall_mem_none, fun _ hmem => absurd hmem List.not_mem_nil,
      forall_mem_none⟩
  · rw [hbook]
    exact fun document hmem => (Option.some.inj hmem).symm
  · intro held hmem
    rw [hhead held hmem]
    exact ⟨rfl, hepoch, hsignature⟩
  · intro held hmem
    rw [hhead held hmem]
    exact hread
  · rw [hbook]
    exact forall_mem_none
  · intro held hmem
    rw [hretained held hmem]
    exact ⟨⟨rfl, .inr (.inl rfl)⟩, hsignature⟩
  · rw [hbook]
    exact ⟨rfl, rfl⟩

theorem Fresh.sound {unit : RegistryEpoch} (h : unit.Fresh) :
    unit.Sound ∧ unit.adopting = false := by
  cases h with
  | epochZero owner hbounded => exact ⟨epochZero_sound owner hbounded, rfl⟩
  | opened owner hcanonical hsignature hepoch =>
    exact ⟨opened_sound owner (Receipt.encode_of_decode hcanonical).2 hsignature hepoch, rfl⟩

end Start

/-! ## Ordinary runs -/

/-- Operations other than the explicit selection of a checkpoint. -/
def Event.Ordinary : Event → Prop
  | .adopt .. => False
  | _ => True

section Ordinary

variable [Crypto] {unit : RegistryEpoch}

/-- Ordinary operations do not turn adoption on. -/
theorem step_adopting (hmode : unit.adopting = false) {event : Event} (h : event.Ordinary) :
    (unit.step event).adopting = false := by
  cases event with
  | admitLocal | admitInbound | updateOwner => exact hmode
  | adopt => exact h.elim
  | sealReceipt receipt group start =>
    have hpending : ¬ unit.repairInstallPending = true := fun hpending =>
      absurd (adopting_of_pending hpending) (by simp [hmode])
    have hordinary : ∀ unit : RegistryEpoch, unit.adopting = false →
        (unit.sealOrdinary receipt group start).2.adopting = false := by
      intro unit hmode
      unfold sealOrdinary
      split <;> exact hmode
    rw [step, RegistryEpoch.sealReceipt, if_neg hpending]
    unfold refreshOwner
    by_cases hscope : group.groupId ≠ unit.logical.serverId
    · rw [if_pos hscope]
      exact hmode
    · rw [if_neg hscope]
      cases group.designatedCommitter with
      | none => exact hmode
      | some owner =>
        dsimp only
        rw [updated_adopting, if_neg (by simp [hmode])]
        exact hordinary _ hmode

/-- After every ordinary run of a fresh unit, the saved book is read back unchanged, the
saved gate is read back, and the restart check accepts both with the opening receipt. -/
theorem ordinary_run_reopens (hfresh : unit.Fresh) (events : List Event)
    (hordinary : ∀ event ∈ events, event.Ordinary) (hsupplies : unit.Supplies events) :
    let after := run RegistryEpoch.step unit events
    (∃ saved, after.receipts.encode = .ok saved ∧
      ReceiptBook.decode saved = .ok after.receipts) ∧
    (∃ saved restored, after.gate.encode = .ok saved ∧ EpochGate.decode saved = .ok restored ∧
      restored.verifyRestart after.gate.inner.accepted after.receipts after.opening = .ok ()) ∧
    after.gate.verifyRestart after.gate.inner.accepted after.receipts after.opening = .ok () := by
  have hinit : unit.Along [] unit ∧ unit.adopting = false :=
    ⟨hfresh.sound.1.along hsupplies.nothing, hfresh.sound.2⟩
  have halong : unit.Along events (run RegistryEpoch.step unit events) ∧
      (run RegistryEpoch.step unit events).adopting = false := by
    refine run_induction (fun past => (∀ event ∈ past, event.Ordinary) ∧ unit.Supplies past)
      (fun past state => unit.Along past state ∧ state.adopting = false) ?_ hinit ?_ events
      ⟨hordinary, hsupplies⟩
    · rintro past event ⟨hall, hrun⟩
      exact ⟨fun other hmem => hall other (List.mem_append_left _ hmem), hrun.shorter⟩
    · rintro past event ⟨hall, hrun⟩ ⟨hold, hmode⟩
      have hone := hall event (List.mem_append_right _ (List.mem_singleton_self event))
      refine ⟨hold.step hrun ?_, step_adopting hmode hone⟩
      cases event with
      | adopt => exact hone.elim
      | sealReceipt => exact fun hadopting => absurd hadopting (by simp [hmode])
      | admitLocal | admitInbound | updateOwner => trivial
  have hreopens := halong.1.sound.reopens
  have hbook := hreopens.book
  have hgate := hreopens.gate
  have hlive := hreopens.live
  rw [halong.2] at hbook hgate hlive
  exact ⟨hbook, hgate, hlive⟩

end Ordinary

theorem known_subset [Crypto] (unit : RegistryEpoch) (events : List Event) :
    unit.known events ⊆ {receipt : Receipt |
      receipt ∈ unit.opening.toList ++ unit.receipts.retained ++ supplied events} := by
  rintro receipt (hopening | hretained | hmem)
  · exact List.mem_append_left _ (List.mem_append_left _ (Option.mem_toList.mpr hopening))
  · exact List.mem_append_left _ (List.mem_append_right _ hretained)
  · exact List.mem_append_right _ hmem

/-- The registry bucket of the concrete runs. -/
def plainBucket : LogicalDocument where
  serverId := [7]
  docType := .docRegistry
  logicalKey := fixedBytes (@hashParts plainCrypto "catcoms-registry-key:v1" [[7], putU64 0])

theorem plainBucket_bounded : plainBucket.Bounded :=
  (LogicalDocument.new_eq_ok.mp (by decide +kernel : LogicalDocument.new [7] .docRegistry
    plainBucket.logicalKey = .ok plainBucket)).2

theorem plainBucket_canonical (owner : UInt8) (start : UInt64) {closed : UInt64}
    (hclosed : closed ≠ u64Max) (signature : Nat) :
    @Receipt.decode plainCrypto (plainReceipt plainBucket owner start closed signature).encode
      = .ok (plainReceipt plainBucket owner start closed signature) :=
  plainReceipt_canonical plainBucket_bounded owner start hclosed signature

/-- Epoch four of the bucket, opened by an owner's receipt for epoch three. -/
def plainUnit : RegistryEpoch := @opened plainCrypto (plainReceipt plainBucket 1 5 3 1) 4 0

/-- An edit, the receipt that seals the epoch, a late edit, and a delayed equivocation of the
opening receipt. -/
def plainEvents : List Event :=
  [.admitLocal ⟨1, 1, 0, 10⟩,
    .sealReceipt (plainReceipt plainBucket 1 5 4 2) (plainGroup [7] 1) 5,
    .admitInbound ⟨2, 2, 0, 10⟩,
    .sealReceipt (plainReceipt plainBucket 1 5 3 3) (plainGroup [7] 1) 5]

/-- Collision freedom of a concrete run is checked on the listed transcripts. -/
theorem collisionFree_known [Crypto] {unit : RegistryEpoch} {events : List Event}
    (h : ∀ left ∈ (unit.opening.toList ++ unit.receipts.retained ++ supplied events).flatMap
        Receipt.preimages,
      ∀ right ∈ (unit.opening.toList ++ unit.receipts.retained ++ supplied events).flatMap
        Receipt.preimages,
      Crypto.sha256 left = Crypto.sha256 right → left = right) :
    Receipt.CollisionFree (unit.known events) :=
  (Receipt.collisionFree_of_list h).mono (unit.known_subset events)

/-- Canonicity of a concrete run, from the owner, start, epoch and signature of each of its
receipts. -/
theorem canonical_of_supplied {events : List Event} (rows : List (UInt8 × UInt64 × UInt64 × Nat))
    (hsupplied : @supplied plainCrypto events = rows.map fun row =>
      plainReceipt plainBucket row.1 row.2.1 row.2.2.1 row.2.2.2)
    (hclosed : ∀ row ∈ rows, row.2.2.1 ≠ u64Max) :
    ∀ receipt ∈ @supplied plainCrypto events,
      @Receipt.decode plainCrypto receipt.encode = .ok receipt := by
  rw [hsupplied]
  intro receipt hmem
  rcases List.mem_map.mp hmem with ⟨row, hrow, rfl⟩
  exact plainBucket_canonical row.1 row.2.1 (hclosed row hrow) row.2.2.2

theorem plainUnit_fresh : @Fresh plainCrypto plainUnit :=
  @Fresh.opened plainCrypto _ _ _ (plainBucket_canonical 1 5 (by decide) 1) (by decide +kernel)
    (by decide +kernel)

theorem ordinary_run_reopens_delayed_fault :
    (run (@RegistryEpoch.step plainCrypto) plainUnit plainEvents).phase = .fault ∧
      ∃ saved, (run (@RegistryEpoch.step plainCrypto) plainUnit plainEvents).receipts.encode
          = .ok saved ∧
        @ReceiptBook.decode plainCrypto saved
          = .ok (run (@RegistryEpoch.step plainCrypto) plainUnit plainEvents).receipts := by
  have hcanonical := @canonical_of_supplied plainEvents [(1, 5, 4, 2), (1, 5, 3, 3)]
    (by decide +kernel) (by decide)
  have hordinary : ∀ event ∈ plainEvents, event.Ordinary := by
    simp [plainEvents, Event.Ordinary]
  exact ⟨by decide +kernel, (@ordinary_run_reopens plainCrypto plainUnit plainUnit_fresh
    plainEvents hordinary (@Supplies.mk plainCrypto _ _ hcanonical (by decide +kernel)
      (@collisionFree_known plainCrypto _ _ (by decide +kernel)))).1⟩

/-- Whatever the order of the operations, a sound unit stays sound and keeps its document, its epoch
and its opening receipt. It retains only receipts it had before or that the run delivered and
verified, and an unfaulted head is one of them, of no earlier tenure than the opening receipt. -/
theorem run_along [Crypto] {unit : RegistryEpoch} (hsound : unit.Sound) (events : List Event)
    (hadopt : Obeys RegistryEpoch.step MayAdopt unit events) (hsupplies : unit.Supplies events) :
    unit.Along events (run RegistryEpoch.step unit events) := by
  refine run_induction (fun past => Obeys RegistryEpoch.step MayAdopt unit past ∧
    unit.Supplies past) unit.Along ?_ (hsound.along hsupplies.nothing) ?_ events ⟨hadopt, hsupplies⟩
  · rintro past event ⟨hobeys, hrun⟩
    exact ⟨((obeys_append past [event]).mp hobeys).1, hrun.shorter⟩
  · rintro past event ⟨hobeys, hrun⟩ hold
    exact hold.step hrun ((obeys_append past [event]).mp hobeys).2.1

theorem run_along_delayed_fault :
    @Along plainCrypto plainUnit plainEvents
      (run (@RegistryEpoch.step plainCrypto) plainUnit plainEvents) := by
  have hcanonical := @canonical_of_supplied plainEvents [(1, 5, 4, 2), (1, 5, 3, 3)]
    (by decide +kernel) (by decide)
  have hobeys : Obeys (@RegistryEpoch.step plainCrypto) MayAdopt plainUnit plainEvents :=
    ⟨trivial, fun h => absurd h (by decide +kernel), trivial,
      fun h => absurd h (by decide +kernel), trivial⟩
  exact @run_along plainCrypto plainUnit (@Fresh.sound plainCrypto _ plainUnit_fresh).1 plainEvents
    hobeys (@Supplies.mk plainCrypto _ _ hcanonical (by decide +kernel)
      (@collisionFree_known plainCrypto _ _ (by decide +kernel)))

/-- Two owners of one tenure start: the second seals the epoch, then the first equivocates
its own opening receipt. -/
def strandingEvents : List Event :=
  [.sealReceipt (plainReceipt plainBucket 2 5 4 2) (plainGroup [7] 2) 5,
    .sealReceipt (plainReceipt plainBucket 1 5 3 3) (plainGroup [7] 1) 5]

/-- Starts that never decrease are not enough: when two owners share a tenure start, a
delayed equivocation of the opening receipt leaves a book that cannot be read back. -/
theorem shared_start_strands :
    ∃ (_ : Crypto) (unit : RegistryEpoch) (events : List Event),
      unit.Fresh ∧ (∀ event ∈ events, event.Ordinary ∧ event.supplied.isSome = true) ∧
      (∀ receipt ∈ supplied events, Receipt.decode receipt.encode = .ok receipt) ∧
      Receipt.CollisionFree (unit.known events) ∧
      ((unit.heads ++ supplied events).Pairwise fun earlier later =>
        earlier.tenureStartGroupEpoch ≤ later.tenureStartGroupEpoch) ∧
      ¬ ∃ saved, (run RegistryEpoch.step unit events).receipts.encode = .ok saved ∧
        ReceiptBook.decode saved = .ok (run RegistryEpoch.step unit events).receipts := by
  refine ⟨plainCrypto, plainUnit, strandingEvents, plainUnit_fresh, ?_,
    canonical_of_supplied [(2, 5, 4, 2), (1, 5, 3, 3)] (by decide +kernel) (by decide),
    @collisionFree_known plainCrypto _ _ (by decide +kernel), by decide +kernel, ?_⟩
  · intro event hmem
    simp only [strandingEvents, List.mem_cons, List.not_mem_nil, or_false] at hmem
    rcases hmem with rfl | rfl
    · exact ⟨trivial, by decide +kernel⟩
    · exact ⟨trivial, by decide +kernel⟩
  · rintro ⟨saved, hsaved, hdecode⟩
    -- The decoder's check of the evidence fails on the retained head.
    have hfault := @ReceiptBook.Rechecked.fault plainCrypto _ _
      (@ReceiptBook.eq_of_decodeMode _ plainCrypto _ _ _ hsaved hdecode).2
    revert hfault
    decide +kernel

/-! ## Runs that adopt checkpoints -/

/-- A registry unit as its constructors make it, or as a restart gave it back. -/
inductive Started [Crypto] : RegistryEpoch → Prop where
  | new {group : OwnerAuthority} {bucket : UInt8} {unit : RegistryEpoch}
      (hnew : RegistryEpoch.new group bucket = .ok unit) : Started unit
  | checkpoint {format : SeedFormat} {group : OwnerAuthority} {bucket : UInt8}
      {receipt : Receipt} {start : UInt64} {seed : Bytes} {unit : RegistryEpoch}
      (hcanonical : Receipt.decode receipt.encode = .ok receipt)
      (hnew : fromCheckpoint format group bucket receipt start seed = .ok unit) : Started unit
  | restored {unit : RegistryEpoch} (hreopens : unit.Reopens) (hvalid : unit.gate.inner.Valid)
      (hscope : unit.gate.document = unit.logical) (hbounded : unit.logical.Bounded)
      (hregistry : unit.logical.docType = .docRegistry)
      (hepoch : unit.gate.epoch ≤ maxRegistryEpoch) : Started unit

/-- An explicit selection meets a unit that adopts already, that is faulted, or whose head
closes an epoch below the registry's ceiling. -/
def BelowCeiling (unit : RegistryEpoch) : Event → Prop
  | .adopt .. => unit.adopting = true ∨ unit.receipts.fault ≠ none ∨
      ∀ latest ∈ unit.receipts.latest, latest.closedEpoch < maxRegistryEpoch
  | _ => True

section Adopting

variable [Crypto] {unit : RegistryEpoch}

theorem registryDocument_eq_ok {server : Bytes} {bucket : UInt8} {logical : LogicalDocument}
    (hok : registryDocument server bucket = .ok logical) :
    logical.Bounded ∧ logical.docType = .docRegistry := by
  rcases LogicalDocument.new_eq_ok.mp hok with ⟨rfl, hbounded⟩
  exact ⟨hbounded, rfl⟩

theorem Started.sound (h : unit.Started) :
    unit.Sound ∧ unit.logical.docType = .docRegistry ∧ unit.gate.epoch ≤ maxRegistryEpoch := by
  cases h with
  | @new group bucket _ hnew =>
    unfold RegistryEpoch.new at hnew
    cases howner : group.designatedCommitter with
    | none =>
      rw [howner] at hnew
      cases hnew
    | some owner =>
      rw [howner] at hnew
      rcases bind_eq_ok.mp hnew with ⟨logical, hlogical, hnew⟩
      cases hnew
      rcases registryDocument_eq_ok hlogical with ⟨hbounded, hregistry⟩
      exact ⟨epochZero_sound owner hbounded, hregistry,
        (by decide : (0 : UInt64) ≤ maxRegistryEpoch)⟩
  | @checkpoint format group bucket receipt start seed _ hcanonical hnew =>
    unfold fromCheckpoint at hnew
    rcases bind_eq_ok.mp hnew with ⟨_, -, hnew⟩
    cases howner : group.designatedCommitter with
    | none =>
      rw [howner] at hnew
      cases hnew
    | some owner =>
      rw [howner] at hnew
      rcases bind_eq_ok.mp hnew with ⟨logical, hlogical, hnew⟩
      rcases guard_eq_ok.mp hnew with ⟨hscope, hnew⟩
      rcases bind_eq_ok.mp hnew with ⟨verified, hverified, hnew⟩
      rcases bind_eq_ok.mp hnew with ⟨epoch, hcheckpoint, hnew⟩
      rcases bind_eq_ok.mp hnew with ⟨_, -, hnew⟩
      cases hnew
      rcases bind_eq_ok.mp hverified with ⟨_, hsignature, hfacts⟩
      cases hfacts
      unfold verifyCheckpoint at hcheckpoint
      cases hepoch : checkedAdd receipt.closedEpoch 1 with
      | none =>
        rw [hepoch] at hcheckpoint
        cases hcheckpoint
      | some next =>
        rw [hepoch] at hcheckpoint
        rcases bind_eq_ok.mp hcheckpoint with ⟨_, -, hcheckpoint⟩
        rcases bind_eq_ok.mp hcheckpoint with ⟨_, -, hcheckpoint⟩
        rcases guard_eq_ok.mp hcheckpoint with ⟨hceiling, hcheckpoint⟩
        rcases bind_eq_ok.mp hcheckpoint with ⟨_, -, hcheckpoint⟩
        cases hcheckpoint
        have hread := (Receipt.encode_of_decode hcanonical).2
        refine ⟨opened_sound owner hread hsignature hepoch, ?_, ?_⟩
        · rw [opened, not_not.mp hscope]
          exact (registryDocument_eq_ok hlogical).2
        · exact UInt64.not_lt.mp fun hover => hceiling (.inr hover)
  | restored hreopens hvalid hscope hbounded hregistry hepoch =>
    exact ⟨hreopens.sound hvalid hscope hbounded, hregistry, hepoch⟩

/-- The head of an adopting unit is always below the ceiling. -/
theorem Sound.below (h : unit.Sound) (hregistry : unit.logical.docType = .docRegistry)
    (hepoch : unit.gate.epoch ≤ maxRegistryEpoch)
    (hhead : unit.adopting = true ∨ unit.receipts.fault ≠ none ∨
      ∀ latest ∈ unit.receipts.latest, latest.closedEpoch < maxRegistryEpoch) : unit.Below := by
  refine ⟨hregistry, hepoch, ?_⟩
  intro hfault latest hlatest
  rcases hhead with hmode | hne | hlow
  · apply ((h.adoption hmode).retained latest (ReceiptBook.mem_retained.mpr (.inl hlatest))).2.1
    rw [h.scope]
    exact hregistry
  · exact absurd hfault hne
  · exact hlow latest hlatest

/-- After every run whose explicit selections meet a head below the registry's ceiling, the
unit reopens in its own mode. -/
theorem adopting_run_reopens (hstart : unit.Started) (events : List Event)
    (hsupplies : unit.Supplies events)
    (hceiling : ∀ past event rest, events = past ++ event :: rest →
      (run RegistryEpoch.step unit past).BelowCeiling event) :
    (run RegistryEpoch.step unit events).Reopens := by
  rcases hstart.sound with ⟨hsound, hregistry, hepoch⟩
  have halong : unit.Along events (run RegistryEpoch.step unit events) := by
    refine run_induction (fun seen => unit.Supplies seen ∧ ∀ past event rest,
      seen = past ++ event :: rest → (run RegistryEpoch.step unit past).BelowCeiling event)
      unit.Along ?_ (hsound.along hsupplies.nothing) ?_ events ⟨hsupplies, hceiling⟩
    · rintro past event ⟨hrun, hlow⟩
      refine ⟨hrun.shorter, fun before other rest hsplit => hlow before other (rest ++ [event]) ?_⟩
      rw [hsplit]
      simp
    · rintro past event ⟨hrun, hlow⟩ hold
      have hlower := hlow past event [] rfl
      refine hold.step hrun ?_
      have hstatic := fun hhead => hold.sound.below (hold.logical ▸ hregistry)
        (hold.epoch ▸ hepoch) hhead
      cases event with
      | adopt => exact hstatic hlower
      | sealReceipt => exact fun hmode => hstatic (.inl hmode)
      | admitLocal | admitInbound | updateOwner => trivial
  exact halong.sound.reopens

end Adopting

/-- A seed format that accepts every seed. -/
def plainFormat : SeedFormat := ⟨fun _ _ _ => .ok (), fun _ _ _ => .ok ()⟩

/-- The terminal epoch of the bucket. -/
def terminalUnit : RegistryEpoch := @opened plainCrypto (plainReceipt plainBucket 1 5 4095 1) 4096
  (plainCrypto.deviceOfKey (plainKey 1))

theorem terminalUnit_started : @Started plainCrypto terminalUnit :=
  @Started.checkpoint plainCrypto plainFormat (plainGroup [7] 1) 0
    (plainReceipt plainBucket 1 5 4095 1) 5 [] _ (plainBucket_canonical 1 5 (by decide) 1)
    (by decide +kernel)

/-- The next owner's checkpoint, a retarget of the same owner, and an equivocation of it. -/
def retargetEvents : List Event :=
  [.adopt (plainReceipt plainBucket 2 6 10 2) (plainGroup [7] 2) 6,
    .sealReceipt (plainReceipt plainBucket 2 6 12 3) (plainGroup [7] 2) 6,
    .adopt (plainReceipt plainBucket 2 6 10 4) (plainGroup [7] 2) 6]

theorem adopting_run_reopens_retarget :
    (run (@RegistryEpoch.step plainCrypto) terminalUnit retargetEvents).phase = .fault ∧
      @Reopens plainCrypto (run (@RegistryEpoch.step plainCrypto) terminalUnit retargetEvents) := by
  have hcanonical := @canonical_of_supplied retargetEvents
    [(2, 6, 10, 2), (2, 6, 12, 3), (2, 6, 10, 4)] (by decide +kernel) (by decide)
  refine ⟨by decide +kernel, @adopting_run_reopens plainCrypto terminalUnit terminalUnit_started
    retargetEvents (@Supplies.mk plainCrypto _ _ hcanonical (by decide +kernel)
      (@collisionFree_known plainCrypto _ _ (by decide +kernel))) ?_⟩
  intro past event rest hsplit
  cases past with
  | nil =>
    cases hsplit
    exact .inr (.inr (by decide +kernel))
  | cons first past =>
    cases past with
    | nil =>
      cases hsplit
      trivial
    | cons second past =>
      cases past with
      | nil =>
        cases hsplit
        exact .inl (by decide +kernel)
      | cons third past => simp [retargetEvents] at hsplit

/-- The terminal epoch is sealed, then the next owner's checkpoint is selected. -/
def ceilingEvents : List Event :=
  [.sealReceipt (plainReceipt plainBucket 1 5 4096 2) (plainGroup [7] 1) 5,
    .adopt (plainReceipt plainBucket 2 6 10 3) (plainGroup [7] 2) 6]

/-- Ordinary sealing accepts a receipt at the registry's ceiling, which an adoption then
keeps as its previous target, and the saved unit does not reopen. -/
theorem sealed_ceiling_strands :
    ∃ (_ : Crypto) (unit : RegistryEpoch) (events : List Event),
      unit.Started ∧ unit.Supplies events ∧
      (∀ past event rest, events = past ++ event :: rest → ∃ receipt group start,
        (event = .sealReceipt receipt group start ∧
          ((run RegistryEpoch.step unit past).sealReceipt receipt group start).1
            = .ok .advanced) ∨
        (event = .adopt receipt group start ∧
          ((run RegistryEpoch.step unit past).beginCheckpointAdoption receipt group start).1
            = .ok .advanced)) ∧
      (run RegistryEpoch.step unit events).gate.verifyAdoptionRestart
        (run RegistryEpoch.step unit events).gate.inner.accepted
        (run RegistryEpoch.step unit events).receipts
        (run RegistryEpoch.step unit events).opening = .error .epochScope ∧
      ¬ (run RegistryEpoch.step unit events).Reopens := by
  have hcanonical := @canonical_of_supplied ceilingEvents [(1, 5, 4096, 2), (2, 6, 10, 3)]
    (by decide +kernel) (by decide)
  have hrefused : (@RegistryEpoch.step plainCrypto |> fun step =>
      @EpochGate.verifyAdoptionRestart plainCrypto (run step terminalUnit ceilingEvents).gate
        (run step terminalUnit ceilingEvents).gate.inner.accepted
        (run step terminalUnit ceilingEvents).receipts
        (run step terminalUnit ceilingEvents).opening) = .error .epochScope := by
    decide +kernel
  refine ⟨plainCrypto, terminalUnit, ceilingEvents, terminalUnit_started,
    @Supplies.mk plainCrypto _ _ hcanonical (by decide +kernel)
      (@collisionFree_known plainCrypto _ _ (by decide +kernel)), ?_, hrefused, ?_⟩
  · intro past event rest hsplit
    cases past with
    | nil =>
      cases hsplit
      exact ⟨_, _, _, .inl ⟨rfl, by decide +kernel⟩⟩
    | cons first past =>
      cases past with
      | nil =>
        cases hsplit
        exact ⟨_, _, _, .inr ⟨rfl, by decide +kernel⟩⟩
      | cons second past => simp [ceilingEvents] at hsplit
  · intro hreopens
    have hmode : (run (@RegistryEpoch.step plainCrypto) terminalUnit ceilingEvents).adopting
        = true := by decide +kernel
    have hlive := @Reopens.live plainCrypto _ hreopens
    rw [hmode] at hlive
    exact nomatch hlive.symm.trans hrefused

end RegistryEpoch

end Mewtual
