import Mewtual.Kept.History

/-!
# Retrying an exhausted transfer

A retry publishes the next grant through the successor that every step uses. That successor turns a
record of the oldest encoding into the next one, and the refill rule of the validator refuses a
change of the encoding.

Main results:

- Theorem {lit}`Record.retry_works_iff`: a retry of an exhausted record is granted, and found again
  within its grant, exactly if the record is not of the oldest encoding.
-/

namespace Mewtual
namespace Kept
namespace Record

section Retry

variable [Blake3] {record : Record} {request : KeepRetry}

/-- The next grant of a record: beside it only the link to the record changes. -/
def retried (record : Record) (request : KeepRetry) (revision grant : UInt64) : Record :=
  { record with
    revision := revision
    predecessor := record.digest
    grant := grant
    lastRetry := some ⟨request, grant⟩
    remaining := record.initialAllowance
    exhausted := false }

/-- A request for the present grant of an exhausted record, with the counters that follow. -/
structure Retryable (record : Record) (request : KeepRetry) (revision grant : UInt64) : Prop where
  valid : record.validate = .ok ()
  exhausted : record.exhausted = true
  phase : record.phase ≠ .deleting
  transfer : request.transfer = record.transfer
  expected : request.expectedGrant = record.grant
  next_revision : checkedAdd record.revision 1 = some revision
  next_grant : checkedAdd record.grant 1 = some grant

variable {revision grant : UInt64}

section

variable (h : record.Retryable request revision grant)

include h

omit [Blake3] in
theorem Retryable.grant_ne : grant ≠ record.grant :=
  (UInt64.ne_of_lt (lt_of_checkedAdd_one h.next_grant)).symm

/-- The last receipt is for the grant before, so a request for this grant is a new one. -/
theorem Retryable.retry_eq :
    record.retry request = record.grantRetry request grant := by
  have hfresh : (record.lastRetry.filter fun receipt => receipt.request = request) = none := by
    refine Option.filter_eq_none_iff.mpr fun receipt hlast hsame => ?_
    have hreceipt := (valid_of_validate h.valid).receipt
    simp only [badReceipt, Option.mem_def.mp hlast, Option.any_some, Bool.or_eq_false_iff,
      decide_eq_false_iff_not, not_not] at hreceipt
    have hbelow := lt_of_checkedAdd_one hreceipt.1.2
    rw [hreceipt.2, ← h.expected, of_decide_eq_true hsame] at hbelow
    exact absurd hbelow (UInt64.lt_irrefl _)
  unfold retry
  rw [hfresh]
  dsimp only
  rw [if_neg (by simp [h.transfer, h.expected, h.phase, h.exhausted]), h.next_grant]

/-- The refill rule refuses the successor of a record of the oldest encoding. -/
theorem Retryable.refused
    (hencoding : record.encoding = .v2) (result : Record × KeepRetryReceipt) :
    record.grantRetry request grant ≠ .ok result := by
  intro hretry
  simp only [grantRetry, successor, h.next_revision, ok_bind] at hretry
  obtain ⟨⟨⟩, haccepted, -⟩ := bind_eq_ok.mp hretry
  have hstep := (follows_of_validateSuccessor haccepted).grant
  rw [badGrantStep, if_neg h.grant_ne] at hstep
  simp [hencoding, RecordEncoding.hasVariants] at hstep

/-! ## The successor is accepted -/

theorem Retryable.grantRetry_eq
    (hencoding : record.encoding ≠ .v2) :
    record.grantRetry request grant =
      (record.validateSuccessor (record.retried request revision grant)
      >>= fun _ => .ok (record.retried request revision grant, ⟨request, grant⟩)) := by
  have hsame :
      (if record.encoding.hasVariants then record.encoding else .v3) = record.encoding := by
    cases henc : record.encoding <;> simp_all [RecordEncoding.hasVariants]
  simp only [grantRetry, successor, h.next_revision, ok_bind, hsame, if_neg hencoding]
  rfl

/-- The record of the next grant passes its own checks. -/
theorem Retryable.validate_retried
    (hencoding : record.encoding ≠ .v2) :
      (record.retried request revision grant).validate = .ok () := by
  obtain ⟨⟨⟩, hscope, hvalid⟩ := bind_eq_ok.mp h.valid
  obtain ⟨charge, hcharge, hvalid⟩ := bind_eq_ok.mp hvalid
  obtain ⟨⟨⟩, hvariants, hvalid⟩ := bind_eq_ok.mp hvalid
  obtain ⟨⟨⟩, hexport, hvalid⟩ := bind_eq_ok.mp hvalid
  obtain ⟨hfields, -⟩ := guard_eq_ok.mp hvalid
  have hrevision := checkedAdd_eq_some.mp h.next_revision
  have hnext := checkedAdd_eq_some.mp h.next_grant
  refine bind_eq_ok.mpr ⟨(), hscope, bind_eq_ok.mpr ⟨charge, hcharge,
    bind_eq_ok.mpr ⟨(), hvariants, bind_eq_ok.mpr ⟨(), hexport, ?_⟩⟩⟩⟩
  refine guard_eq_ok.mpr ⟨?_, rfl⟩
  dsimp only [retried]
  simp only [not_or, not_and, not_not, Bool.not_eq_true] at hfields ⊢
  obtain ⟨hpositive, hintent, hzero, hbelow, -, hlength, -, hcompleted, -, -⟩ := hfields
  -- both counters were positive and are now above one
  simp only [UInt64.lt_iff_toNat_lt, gt_iff_lt, Nat.not_lt, ← UInt64.toNat_inj, UInt64.reduceToNat]
    at hrevision hnext hpositive hzero hbelow ⊢
  refine ⟨by omega, ?_, by omega, by omega, fun hone => by omega, hlength, ?_, hcompleted, ?_, ?_⟩
  · cases henc : record.encoding <;>
      simp_all [badIntent, UInt64.lt_iff_toNat_lt] <;> omega
  · rw [Bool.not_eq_false]
    exact KeepAllowance.atMost_iff.mpr fun _ => Nat.le_refl _
  · simp [badReceipt, h.transfer, h.expected, h.next_grant]
  · simp
    omega

end

omit [Blake3] in
theorem zip_self {α : Type} (list : List α) :
    list.zip list = list.map fun entry => (entry, entry) := by
  induction list with
  | nil => rfl
  | cons entry list ih => simp [ih]

omit [Blake3] in
/-- Unchanged candidates are accepted. -/
theorem validateVariantSuccessor_same {next : Record}
    (hvariants : next.variants = record.variants) :
    record.validateVariantSuccessor next = .ok () := by
  unfold validateVariantSuccessor
  rw [hvariants]
  cases record.variants with
  | none => rfl
  | some variants =>
    refine if_neg ?_
    simp [zip_self]

omit [Blake3] in
/-- An unchanged export is accepted. -/
theorem validateExportSuccessor_same {next : Record} (h : record.validate = .ok ())
    (hsame : next.phase = record.phase)
    (hexported : next.exported = record.exported) (hplanned : next.planned = record.planned) :
    record.validateExportSuccessor next = .ok () := by
  refine if_pos ?_
  have hplan : record.allowsPlanned next = true := by simp [allowsPlanned, hplanned]
  rw [hplan, Bool.true_and]
  unfold allowsExport
  rw [hsame, hexported]
  by_cases hphase : record.phase = .deleting
  · simp [hphase]
  cases hcase : record.exported with
  | none | published => simp [hphase]
  | writing journal =>
    -- a journal is not resumable
    obtain ⟨⟨⟩, -, h⟩ := bind_eq_ok.mp h
    obtain ⟨charge, -, h⟩ := bind_eq_ok.mp h
    obtain ⟨⟨⟩, -, h⟩ := bind_eq_ok.mp h
    obtain ⟨⟨⟩, hexport, h⟩ := bind_eq_ok.mp h
    have hvalid := (guard_eq_ok.mp hexport).2
    rw [validateJournal, hcase] at hvalid
    obtain ⟨hshape, -⟩ := guard_eq_ok.mp hvalid
    have hcompleted : record.phase = .completed := by
      cases hrecord : record.phase <;> simp_all
    cases hhalt : journal.halt <;> simp [hcompleted, ExportJournal.sameDestination, hhalt]

/-- Every record of another encoding accepts its retried successor. -/
theorem Retryable.accepted (h : record.Retryable request revision grant)
    (hencoding : record.encoding ≠ .v2) :
    record.validateSuccessor (record.retried request revision grant) = .ok () := by
  unfold retried
  refine bind_eq_ok.mpr ⟨(), h.valid, bind_eq_ok.mpr ⟨(), h.validate_retried hencoding,
    bind_eq_ok.mpr ⟨false, ?_, guard_eq_ok.mpr ⟨?_, bind_eq_ok.mpr
      ⟨(), validateVariantSuccessor_same rfl, bind_eq_ok.mpr
        ⟨(), validateExportSuccessor_same h.valid rfl rfl rfl,
          guard_eq_ok.mpr ⟨?_, rfl⟩⟩⟩⟩⟩⟩⟩
  · simp [badIntentStep, hencoding]
  · simp [breaksLink, breaksIdentity, h.next_revision, hencoding, owner, zip_self]
    intro hcompleted
    simp [hcompleted]
  · simp [badGrantStep, h.grant_ne, h.exhausted, h.phase, h.next_grant, h.expected]

/-- What a granted retry leaves. -/
structure Retried (record : Record) (request : KeepRetry) (next : Record)
    (receipt : KeepRetryReceipt) : Prop where
  accepted : record.validateSuccessor next = .ok ()
  valid : next.validate = .ok ()
  revision : next.revision.toNat = record.revision.toNat + 1
  grant : next.grant.toNat = record.grant.toNat + 1
  receipt_eq : receipt = ⟨request, next.grant⟩
  preserved : next = { record with
    revision := next.revision
    predecessor := record.digest
    grant := next.grant
    lastRetry := some receipt
    remaining := record.initialAllowance
    exhausted := false }
  /-- The request is answered from the record for as long as the grant stays. -/
  repeated : ∀ later,
    Relation.ReflTransGen (fun old new => old.validateSuccessor new = .ok ()) next later →
    later.grant = next.grant → later.retry request = .ok (later, receipt)

/-- Within a grant the last receipt stays. -/
theorem lastRetry_of_grant {next later : Record}
    (h : Relation.ReflTransGen (fun old new => old.validateSuccessor new = .ok ()) next later)
    (hgrant : later.grant = next.grant) : later.lastRetry = next.lastRetry := by
  have hkept : next.grant.toNat ≤ later.grant.toNat ∧
      (later.grant = next.grant → later.lastRetry = next.lastRetry) := by
    clear hgrant
    induction h with
    | refl => exact ⟨Nat.le_refl _, fun _ => rfl⟩
    | tail _ hstep ih =>
      have hfollows := follows_of_validateSuccessor hstep
      have hgrows := hfollows.continues.grant
      refine ⟨ih.1.trans hgrows, fun hsame => ?_⟩
      rename_i middle last _
      have hmiddle : middle.grant = next.grant := by
        rw [hsame] at hgrows
        exact UInt64.toNat_inj.mp (Nat.le_antisymm hgrows ih.1)
      have hgrant := hfollows.grant
      rw [badGrantStep, if_pos (hsame.trans hmiddle.symm)] at hgrant
      simp only [Bool.or_eq_false_iff, decide_eq_false_iff_not, not_not] at hgrant
      exact hgrant.1.2.trans (ih.2 hmiddle)
  exact hkept.2 hgrant

/-- A retry of an exhausted record is granted and found again exactly if the record is not of the
oldest encoding: its successor would change the encoding, which the refill rule refuses. -/
theorem retry_works_iff (record : Record) (request : KeepRetry) (hvalid : record.validate = .ok ())
    (hexhausted : record.exhausted = true) (hphase : record.phase ≠ .deleting)
    (hrevision : record.revision < u64Max) (hgrant : record.grant < u64Max)
    (htransfer : request.transfer = record.transfer)
    (hexpected : request.expectedGrant = record.grant) :
    (∃ next receipt, record.retry request = .ok (next, receipt) ∧
      record.Retried request next receipt) ↔ record.encoding ≠ .v2 := by
  have hnext : ∀ {value : UInt64}, value < u64Max → checkedAdd value 1 = some (value + 1) := by
    intro value hless
    refine if_pos ?_
    rw [UInt64.lt_iff_toNat_lt] at hless
    simp only [u64Max, UInt64.reduceToNat] at hless ⊢
    omega
  have hready : record.Retryable request (record.revision + 1) (record.grant + 1) :=
    ⟨hvalid, hexhausted, hphase, htransfer, hexpected, hnext hrevision, hnext hgrant⟩
  rw [hready.retry_eq]
  constructor
  · rintro ⟨next, receipt, hretry, -⟩ hencoding
    exact hready.refused hencoding _ hretry
  · intro hencoding
    have haccepted := hready.accepted hencoding
    have heq := hready.grantRetry_eq hencoding
    rw [haccepted] at heq
    refine ⟨_, _, heq, haccepted, hready.validate_retried hencoding, ?_, ?_, rfl, rfl,
      fun later hlater hsame => ?_⟩
    · exact (checkedAdd_eq_some.mp hready.next_revision).symm
    · exact (checkedAdd_eq_some.mp hready.next_grant).symm
    · have hlast := lastRetry_of_grant hlater hsame
      have hfound : (later.lastRetry.filter fun receipt => receipt.request = request) =
          some ⟨request, record.grant + 1⟩ := by
        rw [hlast]
        exact if_pos (decide_eq_true rfl)
      rw [retry, hfound]

end Retry

/-- An exhausted transfer of one chunk, in an encoding. -/
def exhaustedSample (encoding : RecordEncoding) (userPaused : Bool) (intent : UInt64) : Record :=
  { encoding, userPaused, blocked := false, intent, scope := ⟨[1], 4⟩, transfer := 9, revision := 2
    predecessor := 3, plan := ⟨1, 2, [7], [(3, 5)]⟩, listing := 6, phase := .resumable
    verified := [false], remaining := ⟨0, 0, 0, 0⟩, exhausted := true, grant := 1, lastRetry := none
    variants := none, exported := .none, planned := none }

/-- A record of the current encoding gets its second grant. -/
theorem retry_works_iff_v3 :
    letI : Blake3 := ⟨fun _ => 0⟩
    ∃ next receipt, (exhaustedSample .v3 false 1).retry ⟨9, 1, 5⟩ = .ok (next, receipt) ∧
      (exhaustedSample .v3 false 1).Retried ⟨9, 1, 5⟩ next receipt := by
  let : Blake3 := ⟨fun _ => 0⟩
  refine (retry_works_iff (exhaustedSample .v3 false 1) ⟨9, 1, 5⟩ ?_ rfl ?_ ?_ ?_ rfl rfl).mpr ?_
  all_goals decide +kernel

/-- A valid exhausted record of the oldest encoding is refused its retry. -/
theorem retry_refused_v2 :
    letI : Blake3 := ⟨fun _ => 0⟩
    (exhaustedSample .v2 true 0).validate = .ok () ∧
      (exhaustedSample .v2 true 0).retry ⟨9, 1, 5⟩ = .error .malformed := by
  decide +kernel

end Record
end Kept
end Mewtual
