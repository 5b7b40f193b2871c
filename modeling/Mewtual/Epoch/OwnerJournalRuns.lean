import Mewtual.Epoch.OwnerJournalCodec
import Mewtual.Lib.Run

/-!
# Runs of the owner's receipt journal

Every interleaving of preparations, completed publications, repairs, acknowledgements and
restarts, from the default journal.

Main results:

- Theorem {lit}`OwnerReceiptJournal.publishing_run_nonEquivocating`: an owner whose journal
  was never repaired does not equivocate, across restarts.
- Theorem {lit}`OwnerReceiptJournal.perform_error`: an operation that fails changes nothing.
-/

namespace Mewtual

namespace OwnerReceiptJournal

/-! ## Operations -/

/-- One operation on the journal. -/
inductive Event where
  | prepareVerified (receipt : Receipt)
  | prepare (receipt : Receipt) (group : OwnerAuthority) (expectedTenureStart : UInt64)
  | resolveRepair (repair : ReceiptRepair) (a b : Receipt) (retiringClose : Option CloseRecord)
      (group : OwnerAuthority) (issuerTenureStart : UInt64)
  | markPublished (receiptHash : Hash32)
  | markRepairSourceFinalized (repairHash : Hash32)
  | restart

/-- The result of an operation and the journal it leaves. A restart that the decoder
refuses leaves the owner without a journal; the run then keeps the saved one. -/
def perform [Crypto] (journal : OwnerReceiptJournal) :
    Event → Except ReplError Unit × OwnerReceiptJournal
  | .prepareVerified receipt => journal.prepareVerified receipt
  | .prepare receipt group start => journal.prepare receipt group start
  | .resolveRepair repair a b close group start =>
    let (result, next) := journal.resolveRepair repair a b close group start
    (result.map fun _ => (), next)
  | .markPublished receiptHash => journal.markPublished receiptHash
  | .markRepairSourceFinalized repairHash => journal.markRepairSourceFinalized repairHash
  | .restart =>
    match decode journal.encode with
    | .ok restored => (.ok (), restored)
    | .error error => (.error error, journal)

/-- The journal an operation leaves behind. -/
def step [Crypto] (journal : OwnerReceiptJournal) (event : Event) : OwnerReceiptJournal :=
  (journal.perform event).2

/-- An operation that fails leaves the journal unchanged. -/
theorem perform_error [Crypto] (journal : OwnerReceiptJournal) (event : Event)
    {error : ReplError} (herror : (journal.perform event).1 = .error error) :
    (journal.perform event).2 = journal := by
  have hverified : ∀ receipt, (journal.prepareVerified receipt).1 = .error error →
      (journal.prepareVerified receipt).2 = journal := by
    intro receipt hrefused
    rcases journal.prepareVerified_spec receipt with ⟨other, hspec⟩ | ⟨-, next, hspec, -⟩
    · rw [hspec]
    · rw [hspec] at hrefused
      cases hrefused
  cases event with
  | prepareVerified receipt => exact hverified receipt herror
  | prepare receipt group start =>
    rw [perform, prepare] at herror ⊢
    cases hauthority : receipt.verifyCurrentOwner group start with
    | error other => rfl
    | ok verified =>
      rw [hauthority] at herror
      dsimp only at herror ⊢
      split at herror
      · rename_i hversion
        rw [if_pos hversion]
        cases hdecode : Receipt.decode receipt.encode with
        | error other => rfl
        | ok decoded =>
          rw [hdecode] at herror
          exact hverified receipt herror
      · rename_i hversion
        rw [if_neg hversion]
        exact hverified receipt herror
  | resolveRepair repair a b close group start =>
    rw [perform] at herror ⊢
    rcases journal.resolveRepair_spec repair a b close group start with
      ⟨other, hspec⟩ | hspec | ⟨effect, retired, -, -, -, hspec⟩
    · rw [hspec]
    · rw [hspec]
    · rw [hspec] at herror
      cases herror
  | markPublished receiptHash =>
    rw [perform] at herror ⊢
    rcases journal.markPublished_spec receiptHash with
      ⟨other, hspec⟩ | hspec | ⟨decision, -, -, -, hspec⟩
    · rw [hspec]
    · rw [hspec]
    · rw [hspec] at herror
      cases herror
  | markRepairSourceFinalized repairHash =>
    rw [perform] at herror ⊢
    rcases journal.markRepairSourceFinalized_spec repairHash with
      ⟨other, hspec⟩ | ⟨proof, -, hspec⟩
    · rw [hspec]
    · rw [hspec] at herror
      cases herror
  | restart =>
    rw [perform] at herror ⊢
    cases hdecode : decode journal.encode with
    | error other => rfl
    | ok restored =>
      rw [hdecode] at herror
      cases herror

/-! ## The owner's accepted receipts -/

/-- The operations of a journal that is never repaired. -/
def Event.Publishing : Event → Prop
  | .prepareVerified _ => True
  | .markPublished _ => True
  | .restart => True
  | _ => False

/-- The receipt an event asks the journal to accept. -/
def Event.offered : Event → List Receipt
  | .prepareVerified receipt => [receipt]
  | _ => []

/-- The receipt the journal accepts in this event. -/
def acceptedBy [Crypto] (journal : OwnerReceiptJournal) (event : Event) : List Receipt :=
  match (journal.perform event).1 with
  | .ok _ => event.offered
  | .error _ => []

/-- The receipts accepted along a run, in order. -/
def accepted [Crypto] (journal : OwnerReceiptJournal) : List Event → List Receipt
  | [] => []
  | event :: rest => journal.acceptedBy event ++ (journal.step event).accepted rest

theorem accepted_concat [Crypto] (journal : OwnerReceiptJournal) (events : List Event)
    (event : Event) :
    journal.accepted (events ++ [event])
      = journal.accepted events ++ (run step journal events).acceptedBy event := by
  induction events generalizing journal with
  | nil => simp [accepted, run]
  | cons head tail ih =>
    rw [List.cons_append, accepted, accepted, ih, List.append_assoc]
    rfl

/-- The distinct receipts of one tenure, in the order they were first accepted. -/
def ofTenure (receipts : List Receipt) (tenure : OwnerTenure) : List Receipt :=
  receipts.eraseDups.filter (·.ownerTenure = tenure)

/-- Within one tenure the distinct receipts share their inherited checkpoint and close
consecutive epochs, beginning at the inherited one. -/
def Consecutive (receipts : List Receipt) : Prop :=
  ∀ tenure, ∃ inherited : InheritedCheckpoint,
    (∀ receipt ∈ ofTenure receipts tenure, receipt.inherited = inherited) ∧
    (ofTenure receipts tenure).map (·.closedEpoch.toNat)
      = List.range' inherited.epoch.toNat (ofTenure receipts tenure).length

/-- Tenure starts strictly increase from one tenure to the next. -/
def StartsIncrease (receipts : List Receipt) : Prop :=
  receipts.Pairwise fun earlier later => earlier.ownerTenure = later.ownerTenure ∨
    earlier.tenureStartGroupEpoch < later.tenureStartGroupEpoch

/-- What an owner's accepted receipts must satisfy. -/
structure NonEquivocating [Crypto] (receipts : List Receipt) : Prop where
  noConflict : ∀ a ∈ receipts, ∀ b ∈ receipts, ¬ ReceiptsConflict a b
  consecutive : Consecutive receipts
  increasing : StartsIncrease receipts

/-- A later decision of the same tenure, or a decision of a later tenure. -/
def Precedes (earlier later : Receipt) : Prop :=
  (earlier.ownerTenure = later.ownerTenure ∧ earlier.inherited = later.inherited ∧
    earlier.closedEpoch < later.closedEpoch) ∨
  earlier.tenureStartGroupEpoch < later.tenureStartGroupEpoch

theorem start_eq_of_ownerTenure {left right : Receipt}
    (h : left.ownerTenure = right.ownerTenure) :
    left.tenureStartGroupEpoch = right.tenureStartGroupEpoch := by
  simp only [Receipt.ownerTenure, OwnerTenure.mk.injEq] at h
  exact h.2.1

theorem Precedes.trans {first second third : Receipt} (hfirst : Precedes first second)
    (hsecond : Precedes second third) : Precedes first third := by
  rcases hfirst with ⟨htenure, hinherited, hclosed⟩ | hstart
  · rcases hsecond with ⟨htenure', hinherited', hclosed'⟩ | hstart'
    · exact .inl ⟨htenure.trans htenure', hinherited.trans hinherited',
        UInt64.lt_trans hclosed hclosed'⟩
    · rw [← start_eq_of_ownerTenure htenure] at hstart'
      exact .inr hstart'
  · rcases hsecond with ⟨htenure', -, -⟩ | hstart'
    · rw [start_eq_of_ownerTenure htenure'] at hstart
      exact .inr hstart
    · exact .inr (UInt64.lt_trans hstart hstart')

theorem Precedes.irrefl (receipt : Receipt) : ¬ Precedes receipt receipt := by
  rintro (⟨-, -, hclosed⟩ | hstart)
  · exact UInt64.lt_irrefl _ hclosed
  · exact UInt64.lt_irrefl _ hstart

variable {receipts : List Receipt} {receipt : Receipt}

theorem mem_ofTenure {tenure : OwnerTenure} :
    receipt ∈ ofTenure receipts tenure ↔
      receipt ∈ receipts ∧ receipt.ownerTenure = tenure := by
  simp [ofTenure]

/-- A retry adds no distinct receipt. -/
theorem ofTenure_retry (hmem : receipt ∈ receipts) (tenure : OwnerTenure) :
    ofTenure (receipts ++ [receipt]) tenure = ofTenure receipts tenure := by
  simp [ofTenure, List.eraseDups_append, List.removeAll, hmem]

/-- A new receipt extends its own tenure and no other. -/
theorem ofTenure_concat (hnew : receipt ∉ receipts) (tenure : OwnerTenure) :
    ofTenure (receipts ++ [receipt]) tenure = ofTenure receipts tenure
      ++ if receipt.ownerTenure = tenure then [receipt] else [] := by
  have herase : (receipts ++ [receipt]).eraseDups = receipts.eraseDups ++ [receipt] := by
    simp [List.eraseDups_append, List.eraseDups_cons, List.removeAll, hnew]
  rw [ofTenure, herase, List.filter_append, ofTenure]
  by_cases htenure : receipt.ownerTenure = tenure
  · rw [if_pos htenure, List.filter_cons_of_pos (by simpa using htenure), List.filter_nil]
  · rw [if_neg htenure, List.filter_cons_of_neg (by simpa using htenure), List.filter_nil]

/-- The greatest receipt of a consecutive tenure closes its last epoch. -/
theorem closed_of_greatest {list : List Receipt} {base : Nat} {last : Receipt}
    (hrange : list.map (·.closedEpoch.toNat) = List.range' base list.length)
    (hlast : last ∈ list)
    (hgreatest : ∀ receipt ∈ list, receipt.closedEpoch ≤ last.closedEpoch) :
    last.closedEpoch.toNat + 1 = base + list.length := by
  have hpos : 0 < list.length := List.length_pos_of_mem hlast
  have hupper : last.closedEpoch.toNat ∈ List.range' base list.length := by
    rw [← hrange]
    exact List.mem_map_of_mem hlast
  have htop : base + list.length - 1 ∈ list.map (·.closedEpoch.toNat) := by
    rw [hrange, List.mem_range'_1]
    omega
  rcases List.mem_map.mp htop with ⟨receipt, hmem, hclosed⟩
  have hle := UInt64.le_iff_toNat_le.mp (hgreatest receipt hmem)
  rw [List.mem_range'_1] at hupper
  omega

/-- The successor of the greatest receipt keeps its tenure consecutive. -/
theorem Consecutive.follows {last receipt : Receipt} (h : Consecutive receipts)
    (hnew : receipt ∉ receipts) (hlast : last ∈ receipts)
    (hgreatest : ∀ held ∈ receipts, held = last ∨ Precedes held last)
    (hadjacent : Adjacent last receipt) : Consecutive (receipts ++ [receipt]) := by
  intro tenure
  rcases h tenure with ⟨inherited, hsame, hrange⟩
  rw [ofTenure_concat hnew]
  by_cases htenure : receipt.ownerTenure = tenure
  · rw [if_pos htenure]
    have hown : last ∈ ofTenure receipts tenure :=
      mem_ofTenure.mpr ⟨hlast, hadjacent.ownerTenure.trans htenure⟩
    have hselection := hadjacent.2.1
    simp only [Receipt.selection, TenureSelection.mk.injEq] at hselection
    have hinherited : receipt.inherited = inherited :=
      hselection.2.2.1.symm.trans (hsame last hown)
    have htop : last.closedEpoch.toNat + 1
        = inherited.epoch.toNat + (ofTenure receipts tenure).length := by
      refine closed_of_greatest hrange hown ?_
      intro held hmem
      rcases mem_ofTenure.mp hmem with ⟨hheld, heq⟩
      rcases hgreatest held hheld with rfl | ⟨-, -, hclosed⟩ | hstart
      · exact UInt64.le_refl _
      · exact UInt64.le_of_lt hclosed
      · rw [start_eq_of_ownerTenure (heq.trans (mem_ofTenure.mp hown).2.symm)] at hstart
        exact absurd hstart (UInt64.lt_irrefl _)
    have hnext : receipt.closedEpoch.toNat = last.closedEpoch.toNat + 1 :=
      (checkedAdd_eq_some.mp hadjacent.2.2).symm
    refine ⟨inherited, ?_, ?_⟩
    · exact forall_mem_concat hsame hinherited
    · rw [List.map_append, hrange, List.length_append, List.length_singleton,
        List.range'_concat, List.map_singleton, hnext, htop, Nat.one_mul]
  · rw [if_neg htenure, List.append_nil]
    exact ⟨inherited, hsame, hrange⟩

/-- The first receipt of a new tenure begins at its inherited epoch. -/
theorem Consecutive.begins (h : Consecutive receipts)
    (hnew : ∀ held ∈ receipts, held.ownerTenure ≠ receipt.ownerTenure)
    (hclosed : receipt.closedEpoch = receipt.inherited.epoch) :
    Consecutive (receipts ++ [receipt]) := by
  intro tenure
  rw [ofTenure_concat fun hmem => hnew receipt hmem rfl]
  by_cases htenure : receipt.ownerTenure = tenure
  · have hempty : ofTenure receipts tenure = [] := by
      refine List.eq_nil_iff_forall_not_mem.mpr fun held hmem => ?_
      rcases mem_ofTenure.mp hmem with ⟨hheld, heq⟩
      exact hnew held hheld (heq.trans htenure.symm)
    rw [if_pos htenure, hempty]
    refine ⟨receipt.inherited, ?_, ?_⟩
    · intro held hmem
      rw [List.nil_append, List.mem_singleton] at hmem
      rw [hmem]
    · rw [List.nil_append, List.map_singleton, hclosed]
      rfl
  · rw [if_neg htenure, List.append_nil]
    exact h tenure

/-- The accepted receipts of one run, seen beside the journal that accepted them. -/
structure Owned (receipts : List Receipt) (journal : OwnerReceiptJournal) : Prop where
  version : journal.versionTwo = false
  reconciled : journal.reconciled = none
  provenance : journal.provenance = none
  document : journal.document = journal.effectiveChoice.map Receipt.document
  tenure : journal.tenure = journal.effectiveChoice.map Receipt.ownerTenure
  choice : ∀ choice ∈ journal.effectiveChoice, choice ∈ receipts ∧
    ∀ receipt ∈ receipts, receipt = choice ∨ Precedes receipt choice
  fresh : journal.effectiveChoice = none → receipts = []
  consecutive : Consecutive receipts
  increasing : StartsIncrease receipts

section Publishing

variable [Crypto] {receipts : List Receipt} {journal next : OwnerReceiptJournal}
  {receipt : Receipt}

omit [Crypto] in
theorem Owned.start : Owned [] empty := by
  refine ⟨rfl, rfl, rfl, rfl, rfl, forall_mem_none, fun _ => rfl, fun tenure => ?_, .nil⟩
  exact ⟨.epochZero, List.forall_mem_nil _, rfl⟩

omit [Crypto] in
/-- A retry of the effective choice keeps what the owner's receipts satisfy. -/
theorem Owned.retries (h : Owned receipts journal) (hchoice : receipt ∈ journal.effectiveChoice) :
    Owned (receipts ++ [receipt]) journal := by
  rcases h.choice receipt hchoice with ⟨hmem, hgreatest⟩
  refine ⟨h.version, h.reconciled, h.provenance, h.document, h.tenure, ?_, ?_, ?_, ?_⟩
  · intro choice heq
    obtain rfl := Option.mem_unique heq hchoice
    refine ⟨List.mem_append_left _ hmem, ?_⟩
    exact forall_mem_concat hgreatest (.inl rfl)
  · intro hnone
    rw [Option.mem_def.mp hchoice] at hnone
    cases hnone
  · intro tenure
    rw [ofTenure_retry hmem]
    exact h.consecutive tenure
  · refine pairwise_concat h.increasing fun held hheld => ?_
    rcases hgreatest held hheld with rfl | ⟨htenure, -, -⟩ | hstart
    · exact .inl rfl
    · exact .inl htenure
    · exact .inr hstart

omit [Crypto] in
/-- Accepting a receipt that every earlier one precedes keeps the starts increasing. -/
theorem Owned.appends (h : Owned receipts journal)
    (hdocument : journal.document = none ∨ journal.document = some receipt.document)
    (hprecedes : ∀ held ∈ receipts, Precedes held receipt)
    (hconsecutive : Consecutive (receipts ++ [receipt])) :
    Owned (receipts ++ [receipt]) (journal.obliged receipt) := by
  have hchoice : (journal.obliged receipt).effectiveChoice = some receipt := rfl
  refine ⟨h.version, h.reconciled, h.provenance, ?_, ?_, ?_, ?_, hconsecutive, ?_⟩
  · rw [hchoice, obliged_document]
    rcases hdocument with hnone | hsome
    · rw [hnone]
      rfl
    · rw [hsome]
      rfl
  · rw [hchoice]
    rfl
  · intro choice heq
    rw [hchoice] at heq
    obtain rfl := Option.some.inj heq
    refine ⟨List.mem_append_right _ List.mem_cons_self, ?_⟩
    exact forall_mem_concat (fun held hheld => .inr (hprecedes held hheld)) (.inl rfl)
  · intro hnone
    rw [hchoice] at hnone
    cases hnone
  · refine pairwise_concat h.increasing fun held hheld => ?_
    rcases hprecedes held hheld with ⟨htenure, -, -⟩ | hstart
    · exact .inl htenure
    · exact .inr hstart

omit [Crypto] in
theorem precedes_of_adjacent {base : Receipt} (h : Adjacent base receipt) :
    Precedes base receipt := by
  have hselection := h.2.1
  simp only [Receipt.selection, TenureSelection.mk.injEq] at hselection
  exact .inl ⟨h.ownerTenure, hselection.2.2.1, lt_of_checkedAdd_one h.2.2⟩

/-- An accepted receipt extends what the owner decided. -/
theorem Owned.prepared (h : Owned receipts journal) {known : Set Receipt}
    (hfree : Receipt.CollisionFree known) (hknown : ∀ held ∈ receipts, held ∈ known)
    (hconsistent : ∀ held ∈ known, held.SelfConsistent) (hreceipt : receipt ∈ known)
    (hdocument : journal.document = none ∨ journal.document = some receipt.document)
    (hprepared : journal.Prepared receipt next) : Owned (receipts ++ [receipt]) next := by
  cases hprepared with
  | @retry held hsame hheld hhash =>
    have hmem := hknown held (h.choice held hheld).1
    obtain rfl := Receipt.hash_inj hfree hmem hreceipt (hconsistent held hmem)
      (hconsistent receipt hreceipt) hhash
    exact h.retries hheld
  | follows hsame hidle hfirst hrepair hbase =>
    have hchoice : journal.effectiveChoice = journal.canonicalHead := by
      rw [effectiveChoice, hidle, Option.none_or]
    cases hhead : journal.effectiveChoice with
    | none =>
      -- The journal is fresh, so this is the first receipt of its first tenure.
      have hempty := h.fresh hhead
      subst hempty
      have htenure : journal.tenure = none := by
        rw [h.tenure, hhead]
        rfl
      exact h.appends hdocument (List.forall_mem_nil _)
        (h.consecutive.begins (List.forall_mem_nil _) (hfirst htenure))
    | some base =>
      rcases h.choice base hhead with ⟨hmem, hgreatest⟩
      have hadjacent : Adjacent base receipt := hbase base (hchoice ▸ hhead)
      have hprecedes : ∀ held ∈ receipts, Precedes held receipt := by
        intro held hheld
        rcases hgreatest held hheld with rfl | hbefore
        · exact precedes_of_adjacent hadjacent
        · exact hbefore.trans (precedes_of_adjacent hadjacent)
      have hnew : receipt ∉ receipts := fun hold =>
        Precedes.irrefl receipt (hprecedes receipt hold)
      exact h.appends hdocument hprecedes
        (h.consecutive.follows hnew hmem hgreatest hadjacent)
  | @replaces old htenure hother hclosed hstart hclear =>
    have hlast := h.tenure
    rw [htenure] at hlast
    rcases Option.map_eq_some_iff.mp hlast.symm with ⟨last, hchoice, rfl⟩
    have hprecedes : ∀ held ∈ receipts, Precedes held receipt := by
      intro held hheld
      rcases (h.choice last hchoice).2 held hheld with rfl | hbefore
      · exact .inr hstart
      · exact hbefore.trans (.inr hstart)
    refine h.appends hdocument hprecedes (h.consecutive.begins ?_ hclosed)
    intro held hheld heq
    have hle : held.tenureStartGroupEpoch ≤ last.tenureStartGroupEpoch := by
      rcases (h.choice last hchoice).2 held hheld with rfl | ⟨hsame, -, -⟩ | hlt
      · exact UInt64.le_refl _
      · rw [start_eq_of_ownerTenure hsame]
        exact UInt64.le_refl _
      · exact UInt64.le_of_lt hlt
    rw [start_eq_of_ownerTenure heq] at hle
    exact absurd hstart (UInt64.not_lt.mpr hle)

omit [Crypto] in
/-- Completing the pending decision leaves the effective choice as it was. -/
theorem Owned.completes (h : Owned receipts journal) {decision : Receipt}
    (hdecision : decision ∈ journal.inFlight.or journal.reconciled) :
    Owned receipts (journal.completed decision).cleanupFinalized := by
  have hclean : (journal.completed decision).cleanupFinalized = journal.completed decision := by
    refine if_neg fun hfinal => ?_
    rcases hfinal.2 with ⟨proof, hproof, -⟩
    rw [completed_provenance, h.provenance] at hproof
    cases hproof
  have hchoice : (journal.completed decision).effectiveChoice = journal.effectiveChoice := by
    rw [h.reconciled, Option.or_none] at hdecision
    rw [effectiveChoice, effectiveChoice, Option.mem_def.mp hdecision]
    rfl
  rw [hclean]
  refine ⟨h.version, rfl, h.provenance, ?_, ?_, ?_, ?_, h.consecutive, h.increasing⟩
  · rw [hchoice]
    exact h.document
  · rw [hchoice]
    exact h.tenure
  · rw [hchoice]
    exact h.choice
  · rw [hchoice]
    exact h.fresh

/-- One event of a journal that is never repaired. -/
theorem Owned.step {known : Set Receipt} (h : Owned receipts journal) {event : Event}
    (hpublishing : event.Publishing) (hfree : Receipt.CollisionFree known)
    (hknown : ∀ held ∈ receipts, held ∈ known)
    (hconsistent : ∀ held ∈ known, held.SelfConsistent)
    (hoffered : ∀ held ∈ event.offered, held ∈ known) :
    Owned (receipts ++ journal.acceptedBy event) (journal.step event) := by
  cases event with
  | prepareVerified receipt =>
    have hreceipt := hoffered receipt List.mem_cons_self
    rcases journal.prepareVerified_spec receipt with
      ⟨error, hrefused⟩ | ⟨hdocument, next, haccepted, hprepared⟩
    · rw [acceptedBy, OwnerReceiptJournal.step, perform, hrefused, List.append_nil]
      exact h
    · rw [acceptedBy, OwnerReceiptJournal.step, perform, haccepted]
      exact h.prepared hfree hknown hconsistent hreceipt hdocument hprepared
  | markPublished receiptHash =>
    have hnone : journal.acceptedBy (.markPublished receiptHash) = [] := by
      rw [acceptedBy]
      split <;> rfl
    rw [hnone, List.append_nil, OwnerReceiptJournal.step, perform]
    rcases journal.markPublished_spec receiptHash with
      ⟨error, hrefused⟩ | hinert | ⟨decision, hdecision, -, -, hcompleted⟩
    · rw [hrefused]
      exact h
    · rw [hinert]
      exact h
    · rw [hcompleted]
      exact h.completes hdecision
  | restart =>
    have hnone : journal.acceptedBy .restart = [] := by
      rw [acceptedBy]
      split <;> rfl
    rw [hnone, List.append_nil, OwnerReceiptJournal.step, perform]
    cases hdecode : decode journal.encode with
    | error error => exact h
    | ok restored =>
      obtain rfl := eq_of_decode h.version h.reconciled h.provenance h.document h.tenure
        hdecode
      exact h
  | prepare | resolveRepair | markRepairSourceFinalized => cases hpublishing

theorem accepted_subset {held : Receipt} (events : List Event)
    (hheld : held ∈ journal.accepted events) : ∃ event ∈ events, held ∈ event.offered := by
  induction events generalizing journal with
  | nil => cases hheld
  | cons event rest ih =>
    rw [accepted, List.mem_append] at hheld
    rcases hheld with hnow | hlater
    · refine ⟨event, List.mem_cons_self, ?_⟩
      rw [acceptedBy] at hnow
      split at hnow
      · exact hnow
      · cases hnow
    · rcases ih hlater with ⟨other, hother, hoffered⟩
      exact ⟨other, List.mem_cons_of_mem _ hother, hoffered⟩

/-- Receipts of an owner's history never conflict. -/
theorem Owned.noConflict {known : Set Receipt} (h : Owned receipts journal)
    (hfree : Receipt.CollisionFree known) (hknown : ∀ held ∈ receipts, held ∈ known)
    (hconsistent : ∀ held ∈ known, held.SelfConsistent) :
    ∀ a ∈ receipts, ∀ b ∈ receipts, ¬ ReceiptsConflict a b := by
  rintro a ha b hb ⟨-, htenureId, hhash, hdiffers⟩
  rcases Receipt.tenureId_inj hfree (hknown a ha) (hknown b hb) (hconsistent a (hknown a ha))
    (hconsistent b (hknown b hb)) htenureId with ⟨hkey, hstart⟩
  have htenure : a.ownerTenure = b.ownerTenure := by
    rw [Receipt.ownerTenure, Receipt.ownerTenure, htenureId, hkey, hstart]
  rcases h.consecutive b.ownerTenure with ⟨inherited, hsame, hrange⟩
  have hleft := mem_ofTenure.mpr ⟨ha, htenure⟩
  have hright := mem_ofTenure.mpr ⟨hb, rfl⟩
  rcases hdiffers with hclosed | hselection
  · -- Consecutive epochs are distinct, so one closed epoch has one receipt.
    have hnodup : ((ofTenure receipts b.ownerTenure).map (·.closedEpoch.toNat)).Nodup := by
      rw [hrange]
      exact List.nodup_range'
    have heq : a = b := List.inj_on_of_nodup_map hnodup hleft hright (by rw [hclosed])
    exact hhash (congrArg Receipt.hash heq)
  · refine hselection ?_
    rw [Receipt.selection, Receipt.selection, htenureId, hkey, hstart, hsame a hleft,
      hsame b hright]

end Publishing

/-- An owner whose journal was never repaired does not equivocate: whatever it accepts, in
any interleaving with completed publications and restarts. -/
theorem publishing_run_nonEquivocating [Crypto] (events : List Event)
    (hpublishing : ∀ event ∈ events, event.Publishing)
    (hverified : ∀ event ∈ events, ∀ receipt ∈ event.offered,
      receipt.verifySignatureOnly = .ok ())
    (hfree : Receipt.CollisionFree {receipt | ∃ event ∈ events, receipt ∈ event.offered}) :
    NonEquivocating (empty.accepted events) := by
  have hconsistent : ∀ held ∈ {receipt | ∃ event ∈ events, receipt ∈ event.offered},
      held.SelfConsistent := by
    rintro held ⟨event, hevent, hoffered⟩
    exact Receipt.verifySignatureOnly_selfConsistent (hverified event hevent held hoffered)
  have howned : Owned (empty.accepted events) (run step empty events) := by
    refine run_induction (fun seen => seen ⊆ events)
      (fun seen journal => Owned (empty.accepted seen) journal) ?_ .start ?_ events
      (List.Subset.refl _)
    · intro past event hsub
      exact fun other hother => hsub (List.mem_append_left _ hother)
    · intro past event hsub hold
      have hevent : event ∈ events := hsub (List.mem_append_right _ List.mem_cons_self)
      rw [accepted_concat]
      refine hold.step (hpublishing event hevent) hfree ?_ hconsistent ?_
      · intro held hheld
        rcases accepted_subset past hheld with ⟨other, hother, hoffered⟩
        exact ⟨other, hsub (List.mem_append_left _ hother), hoffered⟩
      · exact fun held hheld => ⟨event, hevent, hheld⟩
  refine ⟨howned.noConflict hfree ?_ hconsistent, howned.consecutive, howned.increasing⟩
  exact fun held hheld => accepted_subset events hheld

/-- Two epochs of one tenure with a retry, a refused equivocation and two restarts, then the
first epoch of the next tenure. -/
def plainPublishing : List Event :=
  [.prepareVerified (plainReceipt plainDocument 1 5 0 1), .restart,
    .prepareVerified (plainReceipt plainDocument 1 5 0 1),
    .prepareVerified (plainReceipt plainDocument 1 5 0 2),
    .markPublished (@Receipt.hash plainCrypto (plainReceipt plainDocument 1 5 0 1)), .restart,
    .prepareVerified (plainReceipt plainDocument 1 5 1 3),
    .prepareVerified (plainReceipt plainDocument 2 6 0 4)]

theorem publishing_run_nonEquivocating_restarts :
    @accepted plainCrypto empty plainPublishing
        = [plainReceipt plainDocument 1 5 0 1, plainReceipt plainDocument 1 5 0 1,
          plainReceipt plainDocument 1 5 1 3, plainReceipt plainDocument 2 6 0 4] ∧
      @NonEquivocating plainCrypto (@accepted plainCrypto empty plainPublishing) := by
  have hsupplied : {receipt | ∃ event ∈ plainPublishing, receipt ∈ event.offered}
      ⊆ {receipt | receipt ∈ plainPublishing.flatMap Event.offered} :=
    fun receipt hmem => List.mem_flatMap.mpr hmem
  have hverified : ∀ receipt ∈ plainPublishing.flatMap Event.offered,
      @Receipt.verifySignatureOnly plainCrypto receipt = .ok () := by
    decide +kernel
  refine ⟨by decide +kernel, @publishing_run_nonEquivocating plainCrypto plainPublishing ?_ ?_ ?_⟩
  · simp [plainPublishing, Event.Publishing]
  · intro event hevent receipt hoffered
    exact hverified receipt (List.mem_flatMap.mpr ⟨event, hevent, hoffered⟩)
  · exact @Receipt.CollisionFree.mono plainCrypto _ _ hsupplied
      (@Receipt.collisionFree_of_list plainCrypto _ (by decide +kernel))

end OwnerReceiptJournal

end Mewtual
