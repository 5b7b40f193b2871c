import Mathlib.Data.List.Chain
import Mewtual.Kept.Record

/-!
# The history of a retained transfer

A history starts with an accepted initial record, and every record in it is an accepted successor
of the one before. What the validators check of adjacent records is carried to any two records of
the history, and the refills and commits are traced to the step that made them.

Main results:

- Theorem {lit}`Record.Follows.continues`: what one accepted step keeps.
- Theorem {lit}`Record.refilled_eq`: every refill issues the same allowance once.
- Theorem {lit}`Record.History.commit_step`: a committed candidate was selected before and
  at its commit.
- Theorem {lit}`Record.history_monotone`: the whole history.
-/

namespace Mewtual
namespace Kept

/-- The verified bits of a plan and whether it was found bad. -/
abbrev Mark := List Bool × Bool

/-- No verified bit and no bad verdict is cleared. -/
structure Mark.Grows (old next : Mark) : Prop where
  verified : ∀ index : Nat, old.1[index]? = some true → next.1[index]? = some true
  bad : old.2 = true → next.2 = true

theorem Mark.Grows.trans {first second third : Mark} (h : first.Grows second)
    (h' : second.Grows third) : first.Grows third :=
  ⟨fun index hbit => h'.verified index (h.verified index hbit), fun hbad => h'.bad (h.bad hbad)⟩

namespace Record

/-- The marks of the plans, in the order of {lit}`plans`. -/
def marks (record : Record) : List Mark :=
  match record.variants with
  | some variants => variants.candidates.map fun candidate => (candidate.verified, candidate.bad)
  | none => [(record.verified, false)]

/-- What any later record of a history keeps of an earlier one. -/
structure Continues (old next : Record) : Prop where
  scope : next.scope = old.scope
  transfer : next.transfer = old.transfer
  owner : next.owner = old.owner
  listing : next.listing = old.listing
  plans : next.plans = old.plans
  deleting : old.phase = .deleting → next.phase = .deleting
  completed : old.phase = .completed → next.phase ≠ .resumable
  marks : ∀ (index : Nat) (mark : Mark), old.marks[index]? = some mark →
    ∃ later, next.marks[index]? = some later ∧ mark.Grows later
  ceiling : next.initialAllowance = old.initialAllowance
  grant : old.grant.toNat ≤ next.grant.toNat
  remaining : next.grant = old.grant → next.remaining.atMost old.remaining = true
  exhausted : next.grant = old.grant → old.exhausted = true → next.exhausted = true

/-- Grants only grow, so a grant that is back was never left. -/
theorem Continues.grant_eq {first second third : Record} (h : first.Continues second)
    (h' : second.Continues third) (hgrant : third.grant = first.grant) :
    second.grant = first.grant := by
  have hfirst := h.grant
  have hlast := h'.grant
  rw [hgrant] at hlast
  exact UInt64.toNat_inj.mp (Nat.le_antisymm hlast hfirst)

theorem Continues.trans {first second third : Record} (h : first.Continues second)
    (h' : second.Continues third) : first.Continues third where
  scope := h'.scope.trans h.scope
  transfer := h'.transfer.trans h.transfer
  owner := h'.owner.trans h.owner
  listing := h'.listing.trans h.listing
  plans := h'.plans.trans h.plans
  deleting hphase := h'.deleting (h.deleting hphase)
  completed hphase := by
    cases hsecond : second.phase with
    | resumable => exact absurd hsecond (h.completed hphase)
    | completed => exact h'.completed hsecond
    | deleting =>
      rw [h'.deleting hsecond]
      exact nofun
  marks index mark hmark := by
    obtain ⟨later, hlater, hgrows⟩ := h.marks index mark hmark
    obtain ⟨last, hlast, hgrows'⟩ := h'.marks index later hlater
    exact ⟨last, hlast, hgrows.trans hgrows'⟩
  ceiling := h'.ceiling.trans h.ceiling
  grant := h.grant.trans h'.grant
  remaining hgrant := by
    have hmiddle := h.grant_eq h' hgrant
    rw [KeepAllowance.atMost_iff]
    intro resource
    exact (KeepAllowance.atMost_iff.mp (h'.remaining (hgrant.trans hmiddle.symm)) resource).trans
      (KeepAllowance.atMost_iff.mp (h.remaining hmiddle) resource)
  exhausted hgrant hexhausted := by
    have hmiddle := h.grant_eq h' hgrant
    exact h'.exhausted (hgrant.trans hmiddle.symm) (h.exhausted hmiddle hexhausted)

instance : Trans Continues Continues Continues := ⟨Continues.trans⟩

/-! ## One step -/

/-- A candidate keeps its plan and its marks grow. -/
structure Candidate.Grows (old new : Candidate) : Prop where
  plan : new.plan = old.plan
  bad : old.bad = true → new.bad = true
  verified : ∀ bits ∈ old.verified.zip new.verified, bits.1 = true → bits.2 = true

/-- The candidates of an accepted step. -/
structure VariantStep (record next : Record) (old new : Variants) : Prop where
  length : old.candidates.length = new.candidates.length
  candidates : ∀ pair ∈ old.candidates.zip new.candidates, Candidate.Grows pair.1 pair.2
  committed : old.committed ≠ new.committed →
    old.selected = new.selected ∧ new.committed = some new.selected

theorem variantStep_of_validate {record next : Record}
    (h : record.validateVariantSuccessor next = .ok ()) :
    (record.variants = none ∧ next.variants = none) ∨
      ∃ old new, record.variants = some old ∧ next.variants = some new ∧
        VariantStep record next old new := by
  unfold validateVariantSuccessor at h
  split at h
  · rename_i hold hnew
    exact .inl ⟨hold, hnew⟩
  · rename_i old new hold hnew
    obtain ⟨hchecks, -⟩ := guard_eq_ok.mp h
    simp only [not_or, not_and, not_not, Bool.not_eq_true,
      Bool.or_eq_true, decide_eq_true_eq, Bool.and_eq_true, Bool.not_eq_false',
      List.any_eq_true, not_exists] at hchecks
    obtain ⟨hlength, hpairs, hcommitted, -⟩ := hchecks
    refine .inr ⟨old, new, hold, hnew, hlength, ?_, ?_⟩
    · intro pair hpair
      obtain ⟨⟨hplan, hbad⟩, hbits⟩ := hpairs pair hpair
      exact ⟨hplan.symm, hbad, hbits⟩
    · intro hchanged
      exact ⟨(hcommitted hchanged).1, (hcommitted hchanged).2.1⟩
  · cases h

/-- In lists of one length every element has its partner. -/
theorem exists_mem_zip {α : Type} {old new : List α} (hlength : old.length = new.length)
    {index : Nat} {value : α} (hget : old[index]? = some value) :
    ∃ partner, new[index]? = some partner ∧ (value, partner) ∈ old.zip new := by
  have hlt : index < old.length := (List.getElem?_eq_some_iff.mp hget).1
  have hpartner := List.getElem?_eq_getElem (hlength ▸ hlt)
  refine ⟨_, hpartner, List.mem_of_getElem? (i := index) ?_⟩
  rw [List.getElem?_zip_eq_some]
  exact ⟨hget, hpartner⟩

/-- Bits that never fall pairwise never fall at an index. -/
theorem bit_of_zip {old new : List Bool} (hlength : old.length = new.length)
    (h : ∀ bits ∈ old.zip new, bits.1 = true → bits.2 = true) {index : Nat}
    (hbit : old[index]? = some true) : new[index]? = some true := by
  obtain ⟨bit, hnew, hmem⟩ := exists_mem_zip hlength hbit
  have hset : bit = true := h (true, bit) hmem rfl
  rw [hnew, hset]

theorem plans_ne_nil {record : Record} (h : record.Valid) : record.plans ≠ [] := by
  unfold plans
  cases hvariants : record.variants with
  | none => exact List.cons_ne_nil _ _
  | some variants =>
    have hselected := (h.variants_some variants hvariants).selected_lt
    intro hnil
    rw [List.map_eq_nil_iff] at hnil
    rw [hnil] at hselected
    cases hselected

/-- The ceiling depends on the plans only. -/
theorem initialAllowance_congr {left right : Record} (hne : left.plans ≠ [])
    (h : right.plans = left.plans) : right.initialAllowance = left.initialAllowance := by
  unfold initialAllowance
  rw [h]
  cases hplans : left.plans with
  | nil => exact absurd hplans hne
  | cons first others => rfl

/-- The candidates of a step at one index. -/
theorem VariantStep.candidate {record next : Record} {old new : Variants}
    (h : VariantStep record next old new) {index : Nat} {candidate : Candidate}
    (hget : old.candidates[index]? = some candidate) :
    ∃ later, new.candidates[index]? = some later ∧ Candidate.Grows candidate later := by
  obtain ⟨later, hlater, hmem⟩ := exists_mem_zip h.length hget
  exact ⟨later, hlater, h.candidates (candidate, later) hmem⟩

section Steps

variable [Blake3] {record next : Record}

theorem Follows.plans_eq (h : record.Follows next) : next.plans = record.plans := by
  rcases variantStep_of_validate h.variants with ⟨hold, hnew⟩ | ⟨old, new, hold, hnew, hstep⟩
  · unfold plans
    rw [hold, hnew]
    exact congrArg (fun plan => [plan]) (h.plan hold)
  · unfold plans
    rw [hold, hnew]
    refine List.ext_getElem? fun index => ?_
    rw [List.getElem?_map, List.getElem?_map]
    cases hget : old.candidates[index]? with
    | none =>
      have hge : new.candidates.length ≤ index := by
        rw [← hstep.length]
        exact List.getElem?_eq_none_iff.mp hget
      rw [List.getElem?_eq_none hge]
    | some candidate =>
      obtain ⟨later, hlater, hgrows⟩ := hstep.candidate hget
      rw [hlater]
      exact congrArg some hgrows.plan

theorem Follows.marks_grow (h : record.Follows next) (index : Nat) (mark : Mark)
    (hmark : record.marks[index]? = some mark) :
    ∃ later, next.marks[index]? = some later ∧ mark.Grows later := by
  rcases variantStep_of_validate h.variants with ⟨hold, hnew⟩ | ⟨old, new, hold, hnew, hstep⟩
  · unfold marks at hmark ⊢
    rw [hold] at hmark
    rw [hnew]
    cases index with
    | zero =>
      cases hmark
      have hlength : record.verified.length = next.verified.length := by
        rw [h.valid.verified_length, h.next_valid.verified_length, h.plan hold]
      exact ⟨_, rfl, fun _ => bit_of_zip hlength (h.verified hold), fun hbad => hbad⟩
    | succ index => cases hmark
  · unfold marks at hmark ⊢
    rw [hold] at hmark
    rw [hnew]
    rw [List.getElem?_map, Option.map_eq_some_iff] at hmark
    obtain ⟨candidate, hget, rfl⟩ := hmark
    obtain ⟨later, hlater, hgrows⟩ := hstep.candidate hget
    refine ⟨(later.verified, later.bad), by rw [List.getElem?_map, hlater]; rfl, ?_, hgrows.bad⟩
    have hlength : candidate.verified.length = later.verified.length := by
      rw [(h.valid.variants_some old hold).verified_length candidate (List.mem_of_getElem? hget),
        (h.next_valid.variants_some new hnew).verified_length later
          (List.mem_of_getElem? hlater), hgrows.plan]
    exact fun _ => bit_of_zip hlength hgrows.verified

/-- A step within a grant, or the refill of the next one. -/
theorem Follows.grant_cases (h : record.Follows next) :
    (next.grant = record.grant ∧ next.remaining.atMost record.remaining = true ∧
        (record.exhausted = true → next.exhausted = true)) ∨
      (next.grant ≠ record.grant ∧ record.exhausted = true ∧
        record.grant.toNat + 1 = next.grant.toNat ∧ next.remaining = record.initialAllowance ∧
        ∃ receipt, next.lastRetry = some receipt ∧
          receipt.request.expectedGrant = record.grant) := by
  have hgrant := h.grant
  unfold badGrantStep at hgrant
  by_cases hsame : next.grant = record.grant
  · rw [if_pos hsame] at hgrant
    simp only [Bool.or_eq_false_iff, Bool.not_eq_false', Bool.and_eq_false_iff] at hgrant
    refine .inl ⟨hsame, hgrant.1.1, fun hexhausted => ?_⟩
    rcases hgrant.2 with hfresh | hkept
    · rw [hexhausted] at hfresh
      cases hfresh
    · simpa using hkept
  · rw [if_neg hsame] at hgrant
    simp only [Bool.or_eq_false_iff, Bool.not_eq_false', decide_eq_false_iff_not, not_not] at hgrant
    obtain ⟨⟨⟨⟨⟨⟨⟨⟨⟨⟨⟨hexhausted, -⟩, -⟩, hnext⟩, hrefill⟩, -⟩, -⟩, -⟩, -⟩, -⟩, -⟩,
      hreceipt⟩ := hgrant
    refine .inr ⟨hsame, hexhausted, checkedAdd_eq_some.mp hnext.symm, hrefill, ?_⟩
    cases hlast : next.lastRetry with
    | none =>
      rw [hlast] at hreceipt
      cases hreceipt
    | some receipt =>
      rw [hlast] at hreceipt
      exact ⟨receipt, rfl, by simpa using hreceipt⟩

/-- What one accepted step keeps. -/
theorem Follows.continues (h : record.Follows next) : record.Continues next := { h with
  plans := h.plans_eq
  marks := h.marks_grow
  ceiling := initialAllowance_congr (plans_ne_nil h.valid) h.plans_eq
  grant := by
    rcases h.grant_cases with ⟨hsame, -⟩ | ⟨-, -, hnext, -⟩
    · rw [hsame]
    · omega
  remaining hsame := by
    rcases h.grant_cases with ⟨-, hremaining, -⟩ | ⟨hne, -⟩
    · exact hremaining
    · exact absurd hsame hne
  exhausted hsame := by
    rcases h.grant_cases with ⟨-, -, hexhausted⟩ | ⟨hne, -⟩
    · exact hexhausted
    · exact absurd hsame hne }

end Steps

/-! ## Whole histories -/

/-- A chain of accepted successors behind an accepted initial record. -/
structure History [Blake3] (records : List Record) : Prop where
  initial : ∀ first ∈ records.head?, first.validateInitial = .ok ()
  steps : records.IsChain fun old next => old.validateSuccessor next = .ok ()

/-- What the refills of a history add, component by component. -/
def refilled (resource : Resource) : List Record → Nat
  | old :: next :: later =>
    (if next.grant = old.grant then 0 else next.remaining.amount resource)
      + refilled resource (next :: later)
  | _ => 0

/-- The allowance a history ever issued: the first one and every refill. -/
def issued (resource : Resource) : List Record → Nat
  | [] => 0
  | first :: later => first.remaining.amount resource + refilled resource (first :: later)

/-- The candidate at an index was selected before and at the step that committed it. -/
structure CommitStep (before committed : Record) (index : Nat) : Prop where
  selected_before : ∃ variants, before.variants = some variants ∧ variants.selected = index ∧
    variants.committed ≠ some index
  selected_at : ∃ variants, committed.variants = some variants ∧ variants.selected = index ∧
    variants.committed = some index

/-- Every chunk of the plan is marked verified. -/
def AllVerified (record : Record) (plan : KeepPlan) : Prop :=
  ∃ (index : Nat) (mark : Mark), record.plans[index]? = some plan ∧
    record.marks[index]? = some mark ∧ mark.1.length = plan.chunks.length ∧
    ∀ bit ∈ mark.1, bit = true

section Histories

variable [Blake3] {records : List Record}

omit [Blake3] in
theorem initial_spec {record : Record} (h : record.validateInitial = .ok ()) :
    record.Valid ∧ record.grant = 1 ∧ record.remaining = record.initialAllowance ∧
      ∀ variants, record.variants = some variants → variants.committed = none := by
  obtain ⟨⟨⟩, hvalidate, h⟩ := bind_eq_ok.mp h
  refine ⟨valid_of_validate hvalidate, ?_⟩
  split at h
  · cases h
  · rename_i hfields
    rw [not_or, not_not, not_not] at hfields
    have hinitial := hfields.2
    unfold initialFieldsValid at hinitial
    simp only [Bool.and_eq_true, decide_eq_true_eq] at hinitial
    obtain ⟨⟨⟨⟨⟨-, hgrant⟩, -⟩, -⟩, hremaining⟩, hvariants⟩ := hinitial
    refine ⟨hgrant, hremaining, fun variants hsome => ?_⟩
    rw [hsome, Option.all_some] at hvariants
    unfold Variants.initialFieldsValid at hvariants
    simp only [Bool.and_eq_true, Option.isNone_iff_eq_none] at hvariants
    exact hvariants.1

/-- The front of a history is a history. -/
theorem History.shorten (h : History records) {front : List Record} (hfront : front <+: records) :
    History front := by
  obtain ⟨back, rfl⟩ := hfront
  refine ⟨?_, (List.isChain_append.mp h.steps).1⟩
  intro first hfirst
  cases front with
  | nil => cases hfirst
  | cons head tail => exact h.initial first hfirst

theorem History.tail_steps (h : History records) :
    records.IsChain fun old next => old.Follows next :=
  h.steps.imp fun _ _ => follows_of_validateSuccessor

theorem History.last_step {past : List Record} {before record : Record}
    (h : History (past ++ [before] ++ [record])) : before.Follows record := by
  refine follows_of_validateSuccessor ((List.isChain_append.mp h.steps).2.2 before ?_ record ?_)
  · simp
  · simp

theorem History.valid (h : History records) : ∀ record ∈ records, record.Valid := by
  intro record hmem
  obtain ⟨past, later, rfl⟩ := List.append_of_mem hmem
  have hfront : History (past ++ [record]) := h.shorten ⟨later, by simp⟩
  rcases List.eq_nil_or_concat' past with rfl | ⟨earlier, before, rfl⟩
  · exact (initial_spec (hfront.initial record rfl)).1
  · exact hfront.last_step.next_valid

/-- Every refill issues one full allowance and raises the grant by one. -/
theorem refilled_eq {first : Record} {later : List Record}
    (h : (first :: later).IsChain fun old next => old.Follows next) {last : Record}
    (hlast : (first :: later).getLast? = some last) (resource : Resource) :
    refilled resource (first :: later)
        + first.grant.toNat * first.initialAllowance.amount resource
      = last.grant.toNat * first.initialAllowance.amount resource := by
  induction later generalizing first with
  | nil =>
    cases hlast
    simp [refilled]
  | cons next later ih =>
    rw [List.isChain_cons_cons] at h
    rw [List.getLast?_cons_cons] at hlast
    have hrest := ih h.2 hlast
    rw [h.1.continues.ceiling] at hrest
    rw [refilled]
    rcases h.1.grant_cases with ⟨hsame, -⟩ | ⟨hne, -, hnext, hrefill, -⟩
    · rw [if_pos hsame, Nat.zero_add, ← hsame]
      exact hrest
    · rw [if_neg hne, hrefill, ← hrest, ← hnext]
      ring

theorem History.issued_le (h : History records) {last : Record}
    (hlast : records.getLast? = some last) (resource : Resource) :
    issued resource records ≤ last.grant.toNat * last.initialAllowance.amount resource := by
  cases records with
  | nil => cases hlast
  | cons first later =>
    obtain ⟨-, hgrant, hremaining, -⟩ := initial_spec (h.initial first rfl)
    have hrefilled := refilled_eq h.tail_steps hlast resource
    have hceiling : last.initialAllowance = first.initialAllowance := by
      rcases List.mem_cons.mp (List.mem_of_getLast? hlast) with rfl | hmem
      · rfl
      · have hpairs := (h.tail_steps.imp fun _ _ => Follows.continues).pairwise
        exact (List.rel_of_pairwise_cons hpairs hmem).ceiling
    rw [hgrant] at hrefilled
    rw [issued, hceiling, hremaining, ← hrefilled]
    simp
    omega

/-- A committed candidate was selected before and at its commit. -/
theorem History.commit_step {past : List Record} {record : Record}
    (h : History (past ++ [record])) {variants : Variants} {index : Nat}
    (hvariants : record.variants = some variants) (hcommitted : variants.committed = some index) :
    ∃ before committed, [before, committed] <:+: past ++ [record] ∧
      CommitStep before committed index := by
  induction past using List.reverseRecOn generalizing record variants with
  | nil =>
    have hnone := (initial_spec (h.initial record rfl)).2.2.2 variants hvariants
    rw [hcommitted] at hnone
    cases hnone
  | append_singleton past before ih =>
    have hshorter : History (past ++ [before]) := h.shorten (List.prefix_append _ _)
    rcases variantStep_of_validate h.last_step.variants with ⟨-, hnone⟩ |
      ⟨old, new, hold, hnew, hrule⟩
    · rw [hvariants] at hnone
      cases hnone
    · rw [hvariants] at hnew
      cases hnew
      by_cases hsame : old.committed = some index
      · obtain ⟨first, committed, hinfix, hcommit⟩ := ih hshorter hold hsame
        exact ⟨first, committed, hinfix.trans (List.prefix_append _ _).isInfix, hcommit⟩
      · have hchanged : old.committed ≠ variants.committed := by
          rw [hcommitted]
          exact hsame
        obtain ⟨hselected, hwinner⟩ := hrule.committed hchanged
        have hindex : variants.selected = index := by
          rw [hcommitted] at hwinner
          exact (Option.some.inj hwinner).symm
        refine ⟨before, record, ⟨past, [], by simp⟩, ?_, ?_⟩
        · exact ⟨old, hold, hselected.trans hindex, hsame⟩
        · exact ⟨variants, hvariants, hindex, hcommitted⟩

omit [Blake3] in
/-- The committed plan is verified chunk by chunk. -/
theorem Valid.allVerified {record : Record} (h : record.Valid) {plan : KeepPlan}
    (hplan : record.committedPlan = some plan) : record.AllVerified plan := by
  unfold committedPlan at hplan
  split at hplan
  · cases hplan
  · rename_i hphase
    rw [not_not] at hphase
    unfold AllVerified plans marks
    cases hvariants : record.variants with
    | none =>
      rw [hvariants] at hplan
      cases hplan
      exact ⟨0, (record.verified, false), rfl, rfl, h.verified_length,
        h.completed (h.variants_none hvariants) hphase⟩
    | some variants =>
      rw [hvariants] at hplan
      have hvalid := h.variants_some variants hvariants
      obtain ⟨index, hindex, hplan⟩ := Option.bind_eq_some_iff.mp hplan
      obtain ⟨candidate, hcandidate, hplan⟩ := Option.bind_eq_some_iff.mp hplan
      cases hplan
      refine ⟨index, (candidate.verified, candidate.bad), ?_, ?_, ?_, ?_⟩
      · rw [List.getElem?_map, hcandidate]
        rfl
      · rw [List.getElem?_map, hcandidate]
        rfl
      · exact hvalid.verified_length candidate (List.mem_of_getElem? hcandidate)
      · exact hvalid.committed_verified index hindex candidate hcandidate

/-- Along every history the identity, the listing and the plans stay, phases and marks move one
way, and allowances shrink within a grant. A refill needs exhaustion and a receipt for the grant
before, so no more than one allowance per grant is issued. A committed plan is verified in full, and
its candidate was selected before and at its commit. -/
theorem history_monotone (records : List Record) (h : History records) :
    records.Pairwise Continues ∧
      (records.IsChain fun old next =>
        (next.grant = old.grant ∧ next.remaining.atMost old.remaining = true) ∨
          (old.exhausted = true ∧ next.grant.toNat = old.grant.toNat + 1 ∧
            ∃ receipt, next.lastRetry = some receipt ∧
              receipt.request.expectedGrant = old.grant)) ∧
      (∀ last ∈ records.getLast?, ∀ resource,
        issued resource records ≤ last.grant.toNat * last.initialAllowance.amount resource) ∧
      (∀ record ∈ records, ∀ plan, record.committedPlan = some plan → record.AllVerified plan) ∧
      ∀ past record, past ++ [record] <+: records → ∀ variants index,
        record.variants = some variants → variants.committed = some index →
        ∃ before committed, [before, committed] <:+: past ++ [record] ∧
          CommitStep before committed index := by
  refine ⟨?_, ?_, ?_, ?_, ?_⟩
  · exact (h.tail_steps.imp fun _ _ => Follows.continues).pairwise
  · refine h.tail_steps.imp fun old next hfollows => ?_
    rcases hfollows.grant_cases with ⟨hsame, hless, -⟩ | ⟨-, hexhausted, hnext, -, hreceipt⟩
    · exact .inl ⟨hsame, hless⟩
    · exact .inr ⟨hexhausted, hnext.symm, hreceipt⟩
  · exact fun last hlast resource => h.issued_le hlast resource
  · exact fun record hmem plan => (h.valid record hmem).allVerified
  · intro past record hfront variants index hvariants hcommitted
    exact (h.shorten hfront).commit_step hvariants hcommitted

end Histories

/-- A transfer that was exhausted and retried once has issued two allowances. -/
theorem history_monotone_one_retry :
    letI : Blake3 := ⟨fun _ => 0⟩
    let first := Record.sample
    let second : Record :=
      { first with revision := 2, exhausted := true, remaining := ⟨0, 0, 0, 0⟩ }
    let third : Record :=
      { first with revision := 3, grant := 2, lastRetry := some ⟨⟨9, 1, 5⟩, 2⟩ }
    issued .slices [first, second, third] = 240 ∧
      issued .slices [first, second, third]
        ≤ third.grant.toNat * third.initialAllowance.amount .slices ∧
      [first, second, third].Pairwise Continues := by
  let : Blake3 := ⟨fun _ => 0⟩
  intro first second third
  have hhistory : History [first, second, third] := by
    refine ⟨?_, ?_⟩
    · rintro record ⟨⟩
      decide +kernel
    · refine .cons_cons ?_ (.cons_cons ?_ (.singleton _))
      · decide +kernel
      · decide +kernel
  obtain ⟨hpairs, -, hissued, -⟩ := history_monotone _ hhistory
  exact ⟨by decide +kernel, hissued third rfl .slices, hpairs⟩

end Record

end Kept
end Mewtual
