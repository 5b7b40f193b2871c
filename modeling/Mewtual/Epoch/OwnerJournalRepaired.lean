import Mewtual.Epoch.OwnerJournalRuns

/-!
# Runs of a repaired owner journal

The invariant that every operation of the journal keeps, repairs and their acknowledgements
included: the journal would pass the second version's validation at any time, and the
receipt it stands by is never one that its retained repair covers. The first version takes a
receipt without the check that its decoder makes, so that the invariant needs canonical receipts
there; the second version makes the check itself.

Main results:

- Theorem {lit}`OwnerReceiptJournal.Maintained.step`: one operation keeps the invariant.
- Theorem {lit}`OwnerReceiptJournal.run_keeps`: every journal reached is restored unchanged
  and never stands by a receipt its retained repair covers.
- Theorem {lit}`OwnerReceiptJournal.prepare_strands`: a receipt that the first version takes and
  cannot restore.
-/

namespace Mewtual

namespace OwnerReceiptJournal

/-! ## Repaired journals -/

/-- What every reachable journal satisfies, in either version. -/
structure Kept [Crypto] (journal : OwnerReceiptJournal) : Prop extends ValidV2 journal where
  document : journal.document = journal.effectiveChoice.map Receipt.document
  unrepaired : journal.versionTwo = false → journal.provenance = none

/-- The retained repair does not cover the receipt the journal stands by. -/
def Uncovered [Crypto] (journal : OwnerReceiptJournal) : Prop :=
  ∀ proof ∈ journal.provenance, ∀ choice ∈ journal.effectiveChoice,
    ¬ proof.resolved.Covers choice

section Repaired

variable [Crypto] {journal next : OwnerReceiptJournal} {receipt : Receipt}

theorem Kept.tenure (h : journal.Kept) :
    journal.tenure = journal.effectiveChoice.map Receipt.ownerTenure := by
  cases hchoice : journal.effectiveChoice with
  | none =>
    have hnamed := h.named
    rw [h.document, hchoice] at hnamed
    exact Option.isSome_eq_false_iff.mp hnamed.symm |> Option.isNone_iff_eq_none.mp
  | some choice => exact (h.roles choice (mem_roles_of_choice hchoice)).tenure

theorem Kept.restorable (h : journal.Kept) : journal.Restorable := { h with
  roles receipt hmem :=
    ⟨(h.roles receipt hmem).wellFormed, (h.roles receipt hmem).document,
      (h.roles receipt hmem).tenure⟩
  first hversion := ⟨h.clear (h.unrepaired hversion), h.unrepaired hversion, h.tenure⟩
  second _ := h.toValidV2 }

theorem Kept.start : empty.Kept where
  named := rfl
  roles := List.forall_mem_nil _
  adjacency := forall_mem_none
  clear _ := rfl
  proof := forall_mem_none
  document := rfl
  unrepaired _ := rfl

theorem ReceiptOk.congr (h : journal.ReceiptOk receipt)
    (hdocument : next.document = journal.document) (htenure : next.tenure = journal.tenure) :
    next.ReceiptOk receipt :=
  ⟨h.wellFormed, h.signature, hdocument.trans h.document, htenure.trans h.tenure⟩

/-- A proof stays valid when the roles it speaks of do. -/
theorem ProofOk.congr {proof other : Provenance} (h : journal.ProofOk proof)
    (hresolved : other.resolved = proof.resolved) (hretired : other.retired = proof.retired)
    (hdocument : next.document = journal.document) (htenure : next.tenure = journal.tenure)
    (hreconciled : ∀ held ∈ next.reconciled, held = proof.resolved.selected ∧
      next.highWater ≠ some held)
    (hwitness : next.reconciled = none → other.sourceFinalized = false ∧
      next.inFlight = none ∧ ∃ held ∈ next.highWater,
        held = proof.resolved.selected ∨ Adjacent proof.resolved.selected held) :
    next.ProofOk other where
  verified := by
    rw [hresolved, hdocument]
    exact h.verified
  selected := hresolved ▸ h.selected.congr hdocument htenure
  losing := hresolved ▸ h.losing.congr hdocument htenure
  retired pair hpair := by
    rcases h.retired pair (hretired ▸ hpair) with ⟨hreceipt, hclose⟩
    exact ⟨hreceipt.congr hdocument htenure, hresolved ▸ hclose⟩
  reconciled := hresolved ▸ hreconciled
  witness := hresolved ▸ hwitness

variable {proof : Provenance} {decision : Receipt} {resolved : ResolvedRepair}

/-- While a repair waits for its publication, its selected receipt is the head. -/
theorem Kept.head_of_repair (h : journal.Kept) (hproof : proof ∈ journal.provenance)
    (hreconciled : journal.reconciled ≠ none) :
    journal.canonicalHead = some proof.resolved.selected := by
  rcases Option.ne_none_iff_exists'.mp hreconciled with ⟨held, hheld⟩
  rw [canonicalHead, hheld, Option.some_or, ((h.proof proof hproof).reconciled held hheld).1]

section Preparing

variable (h : journal.Kept) (hwellFormed : receipt.WellFormed)
  (hsignature : receipt.verifySignatureOnly = .ok ())
  (hscope : journal.document = none ∨ journal.document = some receipt.document)

omit [Crypto] in
include hscope in
theorem document_obliged : (journal.obliged receipt).document = some receipt.document := by
  rw [obliged_document]
  rcases hscope with hnone | hsome
  · rw [hnone]
    rfl
  · rw [hsome]
    rfl

include h hwellFormed hsignature hscope

/-- Taking the next receipt of the same tenure. -/
theorem Kept.follows (hsame : ¬ journal.ChangesTenure receipt) (hidle : journal.inFlight = none)
    (hfirst : journal.tenure = none → receipt.closedEpoch = receipt.inherited.epoch)
    (hrepair : journal.provenance ≠ none → journal.reconciled ≠ none)
    (hbase : ∀ base ∈ journal.canonicalHead, Adjacent base receipt) :
    (journal.obliged receipt).Kept := by
  have hdocument := document_obliged hscope
  have hhigh : (journal.obliged receipt).highWater = journal.highWater := by
    rw [obliged_highWater, if_neg hsame]
  -- A journal that holds any receipt already has the document and the tenure of the new one.
  have hheld : ∀ held, journal.ReceiptOk held →
      (journal.obliged receipt).document = journal.document ∧
        (journal.obliged receipt).tenure = journal.tenure := by
    intro held hok
    constructor
    · rcases hscope with hnone | hsome
      · rw [hok.document] at hnone
        cases hnone
      · rw [hdocument, hsome]
    · rw [obliged_tenure, hok.tenure]
      by_contra hne
      exact hsame ⟨held.ownerTenure, hok.tenure, fun heq => hne (congrArg some heq).symm⟩
  have hroles : ∀ held ∈ (journal.obliged receipt).roles,
      held = receipt ∨ held ∈ journal.roles := by
    intro held hmem
    rcases mem_roles.mp hmem with hwater | hpending | hreconciled
    · rw [hhigh] at hwater
      exact .inr (mem_roles.mpr (.inl hwater))
    · exact .inl (Option.some.inj hpending).symm
    · exact .inr (mem_roles.mpr (.inr (.inr hreconciled)))
  have hnew : (journal.obliged receipt).ReceiptOk receipt :=
    ⟨hwellFormed, hsignature, hdocument, rfl⟩
  refine ⟨⟨?_, ?_, ?_, h.clear, ?_⟩, hdocument, h.unrepaired⟩
  · rw [hdocument]
    rfl
  · intro held hmem
    rcases hroles held hmem with rfl | hold
    · exact hnew
    · have hok := h.roles held hold
      exact hok.congr (hheld held hok).1 (hheld held hok).2
  · intro pending hpending
    obtain rfl := Option.some.inj hpending
    have hhead : (journal.obliged receipt).canonicalHead = journal.canonicalHead := by
      rw [canonicalHead, hhigh]
      rfl
    rw [hhead]
    cases hbaseCase : journal.canonicalHead with
    | some base => exact hbase base hbaseCase
    | none =>
      refine hfirst ?_
      rw [h.tenure, effectiveChoice, hidle, hbaseCase]
      rfl
  · intro proof hproof
    have hok := h.proof proof hproof
    have hsame := hheld _ hok.selected
    refine hok.congr rfl rfl hsame.1 hsame.2 ?_ ?_
    · rw [hhigh]
      exact hok.reconciled
    · intro hnone
      exact absurd hnone (hrepair (Option.ne_none_iff_exists'.mpr ⟨proof, hproof⟩))

/-- Taking the first receipt of a later tenure. -/
theorem Kept.replaces (hchanges : journal.ChangesTenure receipt)
    (hclosed : receipt.closedEpoch = receipt.inherited.epoch)
    (hclear : journal.provenance = none) : (journal.obliged receipt).Kept := by
  have hdocument := document_obliged hscope
  have hhigh : (journal.obliged receipt).highWater = none := by
    rw [obliged_highWater, if_pos hchanges]
  have hreconciled : (journal.obliged receipt).reconciled = none := h.clear hclear
  have hnew : (journal.obliged receipt).ReceiptOk receipt :=
    ⟨hwellFormed, hsignature, hdocument, rfl⟩
  refine ⟨⟨?_, ?_, ?_, fun _ => hreconciled, ?_⟩, hdocument, h.unrepaired⟩
  · rw [hdocument]
    rfl
  · intro held hmem
    rw [mem_roles, hhigh, hreconciled] at hmem
    rcases hmem with hnone | hpending | hnone
    · cases hnone
    · obtain rfl := Option.some.inj hpending
      exact hnew
    · cases hnone
  · intro pending hpending
    obtain rfl := Option.some.inj hpending
    rw [canonicalHead, hreconciled, hhigh]
    exact hclosed
  · rw [obliged_provenance, hclear]
    exact forall_mem_none

end Preparing

omit [Crypto] in
/-- Cleanup drops a finalized repair that nothing reconciles, and changes nothing else. -/
theorem cleanupFinalized_cases (journal : OwnerReceiptJournal) :
    (∃ proof ∈ journal.provenance, proof.sourceFinalized = true ∧ journal.reconciled = none ∧
      journal.cleanupFinalized = { journal with provenance := none }) ∨
    ((journal.reconciled = none → ∀ proof ∈ journal.provenance,
        proof.sourceFinalized = false) ∧ journal.cleanupFinalized = journal) := by
  unfold cleanupFinalized
  by_cases hfinal : journal.reconciled = none ∧
      ∃ proof ∈ journal.provenance, proof.sourceFinalized = true
  · rcases hfinal with ⟨hreconciled, proof, hproof, hdone⟩
    exact .inl ⟨proof, hproof, hdone, hreconciled,
      if_pos ⟨hreconciled, proof, hproof, hdone⟩⟩
  · refine .inr ⟨?_, if_neg hfinal⟩
    intro hreconciled proof hproof
    exact Bool.eq_false_iff.mpr fun hdone => hfinal ⟨hreconciled, proof, hproof, hdone⟩

omit [Crypto] in
theorem choice_of_decision (hdecision : decision ∈ journal.inFlight.or journal.reconciled) :
    decision ∈ journal.effectiveChoice := by
  rcases Option.or_eq_some_iff.mp hdecision with hpending | ⟨hidle, hreconciled⟩
  · exact Option.or_eq_some_iff.mpr (.inl hpending)
  · exact Option.or_eq_some_iff.mpr (.inr ⟨hidle, Option.or_eq_some_iff.mpr (.inl hreconciled)⟩)

/-- The decision a waiting repair completes is its selected receipt or the next one. -/
theorem Kept.decision_of_repair (h : journal.Kept) (hproof : proof ∈ journal.provenance)
    (hdecision : decision ∈ journal.inFlight.or journal.reconciled)
    (hrepair : journal.provenance ≠ none → journal.reconciled ≠ none) :
    decision = proof.resolved.selected ∨ Adjacent proof.resolved.selected decision := by
  have hreconciled := hrepair (Option.ne_none_iff_exists'.mpr ⟨proof, hproof⟩)
  rcases Option.or_eq_some_iff.mp hdecision with hpending | ⟨-, hheld⟩
  · have hfollows := h.adjacency decision hpending
    rw [h.head_of_repair hproof hreconciled] at hfollows
    exact .inr hfollows
  · exact .inl ((h.proof proof hproof).reconciled decision hheld).1

/-- Completing a publication keeps the journal valid once a finalized repair is dropped. -/
theorem Kept.completes (h : journal.Kept)
    (hdecision : decision ∈ journal.inFlight.or journal.reconciled)
    (hrepair : journal.provenance ≠ none → journal.reconciled ≠ none) :
    (journal.completed decision).cleanupFinalized.Kept := by
  have hok := h.roles decision (mem_roles_of_choice (choice_of_decision hdecision))
  have hroles : ∀ held ∈ (journal.completed decision).roles,
      (journal.completed decision).ReceiptOk held := by
    intro held hmem
    rcases mem_roles.mp hmem with hwater | hpending | hreconciled
    · obtain rfl := Option.some.inj hwater
      exact hok.congr rfl rfl
    · cases hpending
    · cases hreconciled
  rcases (journal.completed decision).cleanupFinalized_cases with
    ⟨proof, -, -, -, hclean⟩ | ⟨hopen, hclean⟩
  · rw [hclean]
    exact ⟨⟨h.named, fun held hmem => (hroles held hmem).congr rfl rfl, forall_mem_none,
      fun _ => rfl, forall_mem_none⟩, hok.document, fun _ => rfl⟩
  · rw [hclean]
    refine ⟨⟨h.named, hroles, forall_mem_none, fun _ => rfl, ?_⟩, hok.document, h.unrepaired⟩
    intro proof hproof
    refine (h.proof proof hproof).congr rfl rfl rfl rfl forall_mem_none fun _ => ?_
    exact ⟨hopen rfl proof hproof, rfl, decision, rfl,
      h.decision_of_repair hproof hdecision hrepair⟩

/-- Acknowledging the source keeps the journal valid. -/
theorem Kept.acknowledges (h : journal.Kept) (hproof : proof ∈ journal.provenance) :
    (journal.acknowledged proof).cleanupFinalized.Kept := by
  have hroles : ∀ held ∈ journal.roles, (journal.acknowledged proof).ReceiptOk held :=
    fun held hmem => (h.roles held hmem).congr rfl rfl
  rcases (journal.acknowledged proof).cleanupFinalized_cases with
    ⟨other, -, -, hreconciled, hclean⟩ | ⟨hopen, hclean⟩
  · rw [hclean]
    exact ⟨⟨h.named, fun held hmem => (h.roles held hmem).congr rfl rfl, h.adjacency,
      fun _ => hreconciled, forall_mem_none⟩, h.document, fun _ => rfl⟩
  · rw [hclean]
    refine ⟨⟨h.named, hroles, h.adjacency, nofun, ?_⟩, h.document, ?_⟩
    · intro other hother
      obtain rfl := Option.some.inj hother
      refine (h.proof proof hproof).congr rfl rfl rfl rfl (h.proof proof hproof).reconciled ?_
      intro hnone
      exact absurd (hopen hnone _ rfl) (by simp)
    · intro hversion
      have hnone := h.unrepaired hversion
      rw [Option.mem_def.mp hproof] at hnone
      cases hnone

/-- A validated repair candidate derives its document from its effective choice. -/
theorem Kept.repairs {retired : Option (Receipt × CloseRecord)}
    (hvalid : (journal.repaired resolved retired).ValidV2) :
    (journal.repaired resolved retired).Kept := by
  refine ⟨hvalid, ?_, nofun⟩
  have hchoice : ∃ choice, choice ∈ (journal.repaired resolved retired).effectiveChoice := by
    rw [effectiveChoice, canonicalHead, repaired_inFlight, repaired_reconciled]
    by_cases hnormalized : journal.Normalized resolved
    · rcases hnormalized with ⟨held, hheld, hhash⟩
      refine ⟨held, ?_⟩
      rw [if_pos ⟨held, hheld, hhash⟩]
      exact hheld
    · refine ⟨resolved.selected, ?_⟩
      rw [if_neg hnormalized]
      rfl
  rcases hchoice with ⟨choice, hchoice⟩
  rw [(hvalid.roles choice (mem_roles_of_choice hchoice)).document, Option.mem_def.mp hchoice]
  rfl

/-- The receipt that follows the selected one is not covered: it has the selected baseline,
and the loser on that baseline closes another epoch. -/
theorem not_covers_of_adjacent {known : Set Receipt} (hfree : Receipt.CollisionFree known)
    (hreceipt : receipt ∈ known) (hlosing : resolved.losing ∈ known)
    (hreceiptOk : receipt.SelfConsistent) (hlosingOk : resolved.losing.SelfConsistent)
    (hconflict : ReceiptsConflict resolved.selected resolved.losing)
    (hadjacent : Adjacent resolved.selected receipt) : ¬ resolved.Covers receipt := by
  rintro ⟨-, -, hhash | ⟨hother, hsame⟩⟩
  · have heq := Receipt.hash_inj hfree hreceipt hlosing hreceiptOk hlosingOk hhash
    rw [heq] at hadjacent
    rcases hconflict.2.2.2 with hclosed | hselection
    · have hlt := lt_of_checkedAdd_one hadjacent.2.2
      rw [hclosed] at hlt
      exact UInt64.lt_irrefl _ hlt
    · exact hselection hadjacent.2.1
  · exact hother (hadjacent.2.1.trans hsame)

theorem Uncovered.follows {known : Set Receipt} (hfree : Receipt.CollisionFree known)
    (h : journal.Kept) (hreceipt : receipt ∈ known) (hwellFormed : receipt.WellFormed)
    (hlosing : ∀ proof ∈ journal.provenance, proof.resolved.losing ∈ known)
    (hrepair : journal.provenance ≠ none → journal.reconciled ≠ none)
    (hbase : ∀ base ∈ journal.canonicalHead, Adjacent base receipt) :
    (journal.obliged receipt).Uncovered := by
  intro proof hproof choice hchoice
  obtain rfl := Option.some.inj hchoice
  have hreconciled := hrepair (Option.ne_none_iff_exists'.mpr ⟨proof, hproof⟩)
  have hok := h.proof proof hproof
  exact not_covers_of_adjacent hfree hreceipt (hlosing proof hproof)
    hwellFormed.toSelfConsistent hok.losing.wellFormed.toSelfConsistent hok.evidence.conflict
    (hbase _ (h.head_of_repair hproof hreconciled))

omit [Crypto] in
theorem cleanupFinalized_roles (journal : OwnerReceiptJournal) :
    journal.cleanupFinalized.effectiveChoice = journal.effectiveChoice ∧
      ∀ proof ∈ journal.cleanupFinalized.provenance, proof ∈ journal.provenance := by
  rcases journal.cleanupFinalized_cases with ⟨proof, -, -, -, hclean⟩ | ⟨-, hclean⟩
  · rw [hclean]
    exact ⟨rfl, forall_mem_none⟩
  · rw [hclean]
    exact ⟨rfl, fun proof hproof => hproof⟩

theorem Uncovered.completes (h : journal.Uncovered)
    (hdecision : decision ∈ journal.inFlight.or journal.reconciled) :
    (journal.completed decision).cleanupFinalized.Uncovered := by
  rcases (journal.completed decision).cleanupFinalized_roles with ⟨hchoice, hproofs⟩
  intro proof hproof choice hmem
  rw [hchoice] at hmem
  obtain rfl := Option.some.inj hmem
  exact h proof (hproofs proof hproof) _ (choice_of_decision hdecision)

theorem Uncovered.acknowledges (h : journal.Uncovered) (hproof : proof ∈ journal.provenance) :
    (journal.acknowledged proof).cleanupFinalized.Uncovered := by
  rcases (journal.acknowledged proof).cleanupFinalized_roles with ⟨hchoice, hproofs⟩
  intro other hother choice hmem
  rw [hchoice] at hmem
  obtain rfl := Option.some.inj (hproofs other hother)
  exact h proof hproof choice hmem

/-- A repair leaves its selected receipt, or the publication that is that receipt. -/
theorem Uncovered.repairs {retired : Option (Receipt × CloseRecord)}
    (hvalid : (journal.repaired resolved retired).ValidV2) :
    (journal.repaired resolved retired).Uncovered := by
  intro proof hproof choice hchoice
  obtain rfl := Option.some.inj hproof
  have hok := hvalid.proof _ rfl
  have hconflict : ReceiptsConflict resolved.selected resolved.losing := hok.evidence.conflict
  by_cases hnormalized : journal.Normalized resolved
  · have hreconciled : (journal.repaired resolved retired).reconciled = none := by
      rw [repaired_reconciled, if_pos hnormalized]
    rcases hok.witness hreconciled with ⟨-, -, held, hheld, hselected⟩
    have hsame : choice = held := by
      rw [effectiveChoice, canonicalHead, hreconciled] at hchoice
      exact Option.mem_unique hchoice hheld
    rcases hnormalized with ⟨published, hpublished, hhash⟩
    rw [hsame, Option.mem_unique hheld hpublished] at *
    rintro ⟨-, -, hlost | ⟨hother, hbaseline⟩⟩
    · exact hconflict.2.2.1 (hhash.symm.trans hlost)
    · rcases hselected with heq | hadjacent
      · rw [heq] at hbaseline
        exact hother hbaseline
      · exact hother (hadjacent.2.1.trans hbaseline)
  · have hselected : choice = resolved.selected := by
      rw [effectiveChoice, canonicalHead, repaired_reconciled, if_neg hnormalized] at hchoice
      exact (Option.some.inj hchoice).symm
    rw [hselected]
    exact ResolvedRepair.not_covers_selected hconflict

end Repaired

/-- The operations a caller may run. -/
def Event.Public : Event → Prop
  | .prepareVerified _ => False
  | _ => True

/-- The receipts an event presents for preparation. -/
def Event.prepared : Event → List Receipt
  | .prepare receipt _ _ => [receipt]
  | _ => []

/-- Every receipt an event names. -/
def Event.named : Event → List Receipt
  | .prepareVerified receipt => [receipt]
  | .prepare receipt _ _ => [receipt]
  | .resolveRepair _ a b _ _ _ => [a, b]
  | _ => []

/-- A receipt that a journal of the first version accepts is a canonical record. -/
def PreparesCanonical [Crypto] (journal : OwnerReceiptJournal) (event : Event) : Prop :=
  journal.versionTwo = false → (journal.perform event).1 = .ok () →
    ∀ receipt ∈ event.prepared, Receipt.decode receipt.encode = .ok receipt

/-- What a run keeps: a valid journal, an effective choice its repair does not cover, and
evidence the run has named. -/
structure Maintained [Crypto] (known : Set Receipt) (journal : OwnerReceiptJournal) : Prop where
  kept : journal.Kept
  uncovered : journal.Uncovered
  losing : ∀ proof ∈ journal.provenance, proof.resolved.losing ∈ known

section Maintained

variable [Crypto] {journal : OwnerReceiptJournal} {known : Set Receipt}

section

variable (h : journal.Maintained known)

include h

theorem Maintained.prepares (hfree : Receipt.CollisionFree known)
    {receipt : Receipt} (hreceipt : receipt ∈ known) (hwellFormed : receipt.WellFormed)
    (hsignature : receipt.verifySignatureOnly = .ok ()) :
    (journal.prepareVerified receipt).2.Maintained known := by
  rcases journal.prepareVerified_spec receipt with
    ⟨error, hspec⟩ | ⟨hscope, next, hspec, hprepared⟩
  · rw [hspec]
    exact h
  · rw [hspec]
    cases hprepared with
    | retry => exact h
    | follows hsame hidle hfirst hrepair hbase =>
      exact ⟨h.kept.follows hwellFormed hsignature hscope hsame hidle hfirst hrepair hbase,
        .follows hfree h.kept hreceipt hwellFormed h.losing hrepair hbase, h.losing⟩
    | @replaces old htenure hother hclosed hstart hclear =>
      have hchanges : journal.ChangesTenure receipt := ⟨old, htenure, hother⟩
      have hnone : (journal.obliged receipt).provenance = none := hclear
      refine ⟨h.kept.replaces hwellFormed hsignature hscope hchanges hclosed hclear, ?_, ?_⟩
      · intro proof hproof
        rw [hnone] at hproof
        cases hproof
      · intro proof hproof
        rw [hnone] at hproof
        cases hproof

theorem Maintained.resolves (repair : ReceiptRepair)
    {a b : Receipt} (ha : a ∈ known) (hb : b ∈ known) (close : Option CloseRecord)
    (group : OwnerAuthority) (start : UInt64) :
    (journal.resolveRepair repair a b close group start).2.Maintained known := by
  rcases journal.resolveRepair_spec repair a b close group start with
    ⟨error, hspec⟩ | hspec | ⟨effect, retired, -, -, hvalid, hspec⟩
  · rw [hspec]
    exact h
  · rw [hspec]
    exact h
  · rw [hspec]
    refine ⟨.repairs hvalid, .repairs hvalid, ?_⟩
    intro proof hproof
    obtain rfl := Option.some.inj hproof
    rcases ResolvedRepair.between_cases repair a b with hpair | hpair
    · rw [hpair]
      exact hb
    · rw [hpair]
      exact ha

theorem Maintained.publishes (receiptHash : Hash32) :
    (journal.markPublished receiptHash).2.Maintained known := by
  rcases journal.markPublished_spec receiptHash with
    ⟨error, hspec⟩ | hspec | ⟨decision, hdecision, -, hrepair, hspec⟩
  · rw [hspec]
    exact h
  · rw [hspec]
    exact h
  · rw [hspec]
    refine ⟨h.kept.completes hdecision hrepair, h.uncovered.completes hdecision, ?_⟩
    intro proof hproof
    exact h.losing proof ((journal.completed decision).cleanupFinalized_roles.2 proof hproof)

theorem Maintained.finalizes (repairHash : Hash32) :
    (journal.markRepairSourceFinalized repairHash).2.Maintained known := by
  rcases journal.markRepairSourceFinalized_spec repairHash with
    ⟨error, hspec⟩ | ⟨proof, hproof, hspec⟩
  · rw [hspec]
    exact h
  · rw [hspec]
    refine ⟨h.kept.acknowledges hproof, h.uncovered.acknowledges hproof, ?_⟩
    intro other hother
    have hmem := (journal.acknowledged proof).cleanupFinalized_roles.2 other hother
    obtain rfl := Option.some.inj hmem
    exact h.losing proof hproof

/-- A receipt that the journal accepts is well formed: the first version is given such receipts
only, the second looks for itself. -/
theorem Maintained.accepts (hfree : Receipt.CollisionFree known) {receipt : Receipt}
    {group : OwnerAuthority} {start : UInt64}
    (hcanonical : journal.PreparesCanonical (.prepare receipt group start))
    (hreceipt : receipt ∈ known) :
    (journal.step (.prepare receipt group start)).Maintained known := by
  cases hresult : (journal.perform (.prepare receipt group start)).1 with
  | error error =>
    rw [OwnerReceiptJournal.step, perform_error journal _ hresult]
    exact h
  | ok =>
    have haccepted := hcanonical
    rw [PreparesCanonical, hresult] at haccepted
    rw [OwnerReceiptJournal.step]
    rw [perform, prepare] at hresult ⊢
    cases hauthority : receipt.verifyCurrentOwner group start with
    | error error => exact h
    | ok verified =>
      have hsignature := (Receipt.verifyCurrentOwner_eq_ok hauthority).2.2.2.2
      have hframable := (Receipt.verifySignatureOnly_selfConsistent hsignature).framable
      have hnext := fun hwellFormed : receipt.WellFormed =>
        h.prepares hfree hreceipt hwellFormed hsignature
      dsimp only
      split
      · cases hdecode : Receipt.decode receipt.encode with
        | error error => exact h
        | ok decoded => exact hnext ((Receipt.decode_encode_iff hframable).mp hdecode).1
      · rename_i hversion
        have hdecode := haccepted (Bool.not_eq_true _ ▸ hversion) rfl receipt List.mem_cons_self
        exact hnext ((Receipt.decode_encode_iff hframable).mp hdecode).1

/-- One operation keeps the journal. -/
theorem Maintained.step (hfree : Receipt.CollisionFree known)
    {event : Event} (hpublic : event.Public) (hcanonical : journal.PreparesCanonical event)
    (hnamed : ∀ receipt ∈ event.named, receipt ∈ known) :
    (journal.step event).Maintained known := by
  cases event with
  | prepareVerified => cases hpublic
  | prepare receipt group start =>
    exact h.accepts hfree hcanonical (hnamed receipt List.mem_cons_self)
  | resolveRepair repair a b close group start =>
    exact h.resolves repair (hnamed a List.mem_cons_self)
      (hnamed b (List.mem_cons_of_mem _ List.mem_cons_self)) close group start
  | markPublished receiptHash => exact h.publishes receiptHash
  | markRepairSourceFinalized repairHash => exact h.finalizes repairHash
  | restart =>
    rw [OwnerReceiptJournal.step, perform, h.kept.restorable.decode_encode.2]
    exact h

end

end Maintained

/-- Every journal a run reaches fits its cap and is restored unchanged, is valid in its
second version, is not changed by a failing operation, and never stands by a receipt its
retained repair covers. Only the receipts that the first version accepts have to be canonical. -/
theorem run_keeps [Crypto] (events : List Event) (hpublic : ∀ event ∈ events, event.Public)
    (hcanonical : Obeys step PreparesCanonical empty events)
    (hfree : Receipt.CollisionFree {receipt | ∃ event ∈ events, receipt ∈ event.named}) :
    (run step empty events).encode.length ≤ maxOwnerReceiptJournalBytes ∧
      decode (run step empty events).encode = .ok (run step empty events) ∧
      ((run step empty events).versionTwo = true →
        (run step empty events).validateV2 = .ok ()) ∧
      (∀ event error, ((run step empty events).perform event).1 = .error error →
        ((run step empty events).perform event).2 = run step empty events) ∧
      ∀ proof ∈ (run step empty events).provenance,
        ∀ choice ∈ (run step empty events).effectiveChoice, ¬ proof.resolved.Covers choice := by
  have hmaintained : (run step empty events).Maintained
      {receipt | ∃ event ∈ events, receipt ∈ event.named} := by
    refine run_induction (fun seen => seen ⊆ events ∧ Obeys step PreparesCanonical empty seen)
      (fun _ journal => Maintained _ journal) ?_ ?_ ?_ events ⟨List.Subset.refl _, hcanonical⟩
    · rintro past event ⟨hsub, hobeys⟩
      exact ⟨fun other hother => hsub (List.mem_append_left _ hother),
        ((obeys_append _ _).mp hobeys).1⟩
    · exact ⟨.start, forall_mem_none, forall_mem_none⟩
    · rintro past event ⟨hsub, hobeys⟩ hold
      have hevent : event ∈ events := hsub (List.mem_append_right _ List.mem_cons_self)
      exact hold.step hfree (hpublic event hevent) ((obeys_append _ _).mp hobeys).2.1
        fun receipt hnamed => ⟨event, hevent, hnamed⟩
  rcases hmaintained.kept.restorable.decode_encode with ⟨hlen, hdecode⟩
  exact ⟨hlen, hdecode, fun _ => validateV2_eq_ok.mpr hmaintained.kept.toValidV2,
    fun event _ herror => perform_error _ event herror, hmaintained.uncovered⟩

/-- A receipt on a checkpoint of epoch zero, which no decoder accepts. -/
def strangeReceipt (closed : UInt64) (signature : Nat) : Receipt :=
  { plainReceipt plainDocument 1 5 closed signature with inherited := .checkpoint 0 3 4 }

/-- The default journal accepts such a receipt of the current owner, and cannot be restored then. -/
theorem prepare_strands :
    let event := Event.prepare (strangeReceipt 0 1) (plainGroup [7] 1) 5
    event.Public ∧ @Receipt.CollisionFree plainCrypto {receipt | receipt ∈ event.named} ∧
      (@perform plainCrypto empty event).1 = .ok () ∧
      (@step plainCrypto empty event).inFlight = some (strangeReceipt 0 1) ∧
      @decode plainCrypto (@step plainCrypto empty event).encode = .error .malformed :=
  ⟨trivial, @Receipt.collisionFree_of_list plainCrypto _ (by decide +kernel), by decide +kernel,
    by decide +kernel, by decide +kernel⟩

/-- A published loser is replaced by the repair, which is then published past. The repaired journal
refuses a receipt that is not canonical. -/
def plainRepairing : List Event :=
  [.prepare (plainReceipt plainDocument 1 5 0 1) (plainGroup [7] 1) 5,
    .markPublished (@Receipt.hash plainCrypto (plainReceipt plainDocument 1 5 0 1)),
    .resolveRepair (plainRepair 1 5 (plainReceipt plainDocument 1 5 0 2)
        (plainReceipt plainDocument 1 5 0 1) 1)
      (plainReceipt plainDocument 1 5 0 1) (plainReceipt plainDocument 1 5 0 2) none
      (plainGroup [7] 1) 5,
    .restart, .prepare (strangeReceipt 1 6) (plainGroup [7] 1) 5,
    .prepare (plainReceipt plainDocument 1 5 1 3) (plainGroup [7] 1) 5]

theorem plainRepairing_canonical :
    Obeys (@step plainCrypto) (@PreparesCanonical plainCrypto) empty plainRepairing := by
  have hversion : (run (@step plainCrypto) empty (plainRepairing.take 4)).versionTwo = true ∧
      (run (@step plainCrypto) empty (plainRepairing.take 5)).versionTwo = true := by
    decide +kernel
  refine ⟨fun _ _ => ?_, fun _ _ => ?_, fun _ _ => ?_, fun _ _ => ?_, fun hone => ?_,
    fun hone => ?_, trivial⟩
  · exact List.forall_mem_singleton.mpr
      (plainReceipt_canonical plainDocument_bounded 1 5 (by decide) 1)
  · exact List.forall_mem_nil _
  · exact List.forall_mem_nil _
  · exact List.forall_mem_nil _
  · cases hversion.1.symm.trans hone
  · cases hversion.2.symm.trans hone

theorem run_keeps_repaired :
    (run (@step plainCrypto) empty plainRepairing).provenance.isSome = true ∧
      (run (@step plainCrypto) empty plainRepairing).effectiveChoice
        = some (plainReceipt plainDocument 1 5 1 3) ∧
      @decode plainCrypto (run (@step plainCrypto) empty plainRepairing).encode
        = .ok (run (@step plainCrypto) empty plainRepairing) := by
  have hnamed : {receipt | ∃ event ∈ plainRepairing, receipt ∈ event.named}
      ⊆ {receipt | receipt ∈ plainRepairing.flatMap Event.named} :=
    fun receipt hmem => List.mem_flatMap.mpr hmem
  have hpublic : ∀ event ∈ plainRepairing, event.Public := by
    simp [plainRepairing, Event.Public]
  exact ⟨by decide +kernel, by decide +kernel,
    (@run_keeps plainCrypto plainRepairing hpublic plainRepairing_canonical
      (@Receipt.CollisionFree.mono plainCrypto _ _ hnamed
        (@Receipt.collisionFree_of_list plainCrypto _ (by decide +kernel)))).2.1⟩

end OwnerReceiptJournal

end Mewtual
