import Mathlib.Algebra.Order.BigOperators.Group.List
import Mewtual.Kept.Record

/-!
# Records are written in one way

Every section of a record is read back from what the encoder writes, and every accepted input is
what the encoder writes. The predecessor digest of a record therefore names one record, as long as
the two encodings at hand do not collide.

Main results:

- Theorem {lit}`Record.decode_encode`: an accepted record is read back.
- Theorem {lit}`Record.encode_of_decode`: the bytes of a decoded record are its encoding.
- Theorem {lit}`Record.transfer_records_canonical`: all formats of a retained transfer.
-/

namespace Mewtual
namespace Kept

variable {input left : Bytes}

/-! ## Sections of a record -/

@[simp] theorem KeepAllowance.accepts_get {allowance : KeepAllowance} :
    Accepts get input allowance left ↔ input = allowance.put ++ left := by
  cases allowance
  simp [get, put]

theorem KeepAllowance.length_put (allowance : KeepAllowance) : allowance.put.length = 18 := by
  simp [put]

@[simp] theorem KeepPhase.accepts_get {phase : KeepPhase} :
    Accepts get input phase left ↔ input = putU8 phase.tag ++ left := by
  cases phase <;> simp [get, tag]

@[simp] theorem accepts_getRetry {transfer : Hash32} {lastRetry : Option KeepRetryReceipt} :
    Accepts (getRetry transfer) input lastRetry left ↔ input = putRetry lastRetry ++ left ∧
      ∀ receipt ∈ lastRetry, receipt.request.transfer = transfer := by
  rcases lastRetry with - | ⟨⟨found, expectedGrant, request⟩, granted⟩
  · simp [getRetry, putRetry]
  · simp [getRetry, putRetry, eq_comm]

theorem length_putRetry_le (lastRetry : Option KeepRetryReceipt) :
    (putRetry lastRetry).length ≤ 37 := by
  cases lastRetry <;> simp [putRetry]

theorem length_putBitmap (bits : List Bool) : (putBitmap bits).length = 4 + bits.length := by
  simp [putBitmap]

/-! ## Candidates -/

/-- Accepted plans and their bitmaps fit a byte field. -/
theorem plan_length_lt {plan : KeepPlan} (h : ∃ charge, plan.charge = .ok charge) :
    plan.encode.length < 2 ^ 32 ∧ plan.chunks.length < 2 ^ 32 := by
  obtain ⟨charge, hcharge⟩ := h
  have hbounded := KeepPlan.bounded_of_charge hcharge
  exact ⟨lt_of_le_of_lt (KeepPlan.length_encode_le hbounded) (by decide),
    lt_of_le_of_lt hbounded.chunks_le (by decide)⟩

/-- What the reader of a candidate checks. -/
def Candidate.Readable (candidate : Candidate) : Prop :=
  (∃ charge, candidate.plan.charge = .ok charge) ∧
    candidate.verified.length = candidate.plan.chunks.length

@[simp] theorem Candidate.accepts_get {candidate : Candidate} : Accepts get input candidate left ↔
    input = candidate.put ++ left ∧ candidate.Readable := by
  obtain ⟨plan, verified, bad⟩ := candidate
  have hlength := @plan_length_lt plan
  simp [get, put, Readable, KeepPlan.decode_eq_ok, -Bool.exists_bool]
  grind

theorem Candidate.length_put_le {candidate : Candidate} {charge : Nat}
    (hcharge : candidate.plan.charge = .ok charge)
    (hlength : candidate.verified.length = candidate.plan.chunks.length) :
    candidate.put.length ≤ 71386 := by
  have hbounded := KeepPlan.bounded_of_charge hcharge
  have hplan := KeepPlan.length_encode_le hbounded
  have hchunks := hbounded.chunks_le
  unfold chunkLimit at hchunks
  simp only [put, List.length_append, length_framed, length_putBitmap, length_putU8]
  omega

/-- What the reader of candidates needs of a value. -/
structure Variants.Bounded (minimum : Nat) (variants : Variants) : Prop where
  count_ge : minimum ≤ variants.candidates.length
  count_le : variants.candidates.length ≤ maxVariants
  selected_lt : variants.selected < variants.candidates.length
  committed_lt : ∀ index ∈ variants.committed, index < variants.candidates.length
  charged : ∀ candidate ∈ variants.candidates, ∃ charge, candidate.plan.charge = .ok charge
  verified_length : ∀ candidate ∈ variants.candidates,
    candidate.verified.length = candidate.plan.chunks.length

variable {variants : Variants}

theorem Record.VariantsValid.bounded {record : Record} (h : record.VariantsValid variants) :
    variants.Bounded record.encoding.minimum :=
  ⟨h.count_ge, h.count_le, h.selected_lt, h.committed_lt, h.charged, h.verified_length⟩

theorem toNat_eq_iff {byte : UInt8} {number : Nat} :
    byte.toNat = number ↔ byte = UInt8.ofNat number ∧ number < 256 := by
  constructor
  · rintro rfl
    exact ⟨UInt8.ofNat_toNat.symm, byte.toNat_lt⟩
  · rintro ⟨rfl, h⟩
    exact UInt8.toNat_ofNat_of_lt' h

theorem eq_winner_iff {byte : UInt8} {committed : Option Nat} :
    (if byte = 0 then none else some (byte.toNat - 1)) = committed ↔
      byte = Variants.winner committed ∧ ∀ index ∈ committed, index < 255 := by
  cases committed with
  | none => simp [Variants.winner]
  | some index =>
    have hzero := @toNat_eq_iff byte 0
    have hnext := @toNat_eq_iff byte (index + 1)
    simp only [Variants.winner, Option.mem_def, Option.some.injEq, forall_eq']
    grind

/-- What the reader of candidates checks. -/
def Variants.Readable (minimum : Nat) (variants : Variants) : Prop :=
  (minimum ≤ variants.candidates.length ∧ variants.candidates.length ≤ maxVariants) ∧
    variants.selected < 256 ∧ (∀ index ∈ variants.committed, index < 255) ∧
    ∀ candidate ∈ variants.candidates, candidate.Readable

@[simp] theorem Variants.accepts_get {minimum : Nat} : Accepts (get minimum) input variants left ↔
    input = variants.put ++ left ∧ variants.Readable minimum := by
  obtain ⟨candidates, selected, committed⟩ := variants
  simp [get, put, Readable, accepts_times _ _ Candidate.accepts_get, toNat_eq_iff, eq_winner_iff,
    eq_comm (a := candidates.length)]
  grind [maxVariants]

theorem Variants.length_put_le {minimum : Nat} (h : variants.Bounded minimum) :
    variants.put.length ≤ 285547 := by
  have hcandidates : (variants.candidates.flatMap Candidate.put).length
      ≤ variants.candidates.length * 71386 := by
    rw [List.length_flatMap]
    refine (List.sum_le_card_nsmul _ 71386 ?_).trans_eq (by simp)
    intro length hlength
    obtain ⟨candidate, hmem, rfl⟩ := List.mem_map.mp hlength
    obtain ⟨charge, hcharge⟩ := h.charged candidate hmem
    exact Candidate.length_put_le hcharge (h.verified_length candidate hmem)
  have hcount := h.count_le
  unfold maxVariants at hcount
  simp only [put, List.length_append, length_putU8]
  omega

/-! ## Domains -/

theorem RecordEncoding.ofDomain_domain (encoding : RecordEncoding) :
    ofDomain encoding.domain = some encoding := by
  cases encoding <;> decide +kernel

theorem RecordEncoding.domain_of_ofDomain {bytes : Bytes} {encoding : RecordEncoding}
    (h : ofDomain bytes = some encoding) : encoding.domain = bytes := by
  simpa using List.find?_some h

theorem RecordEncoding.length_domain_le (encoding : RecordEncoding) :
    encoding.domain.length ≤ 28 := by
  cases encoding <;> decide +kernel

/-! ## Sections that depend on the encoding -/

namespace Record

variable {record : Record}

/-- The intent section of an encoding, as the encoder writes it. -/
def intentBytes (encoding : RecordEncoding) (intent : Bool × UInt64 × Bool) : Bytes :=
  if encoding = .v2 then []
  else putU8 (putBit intent.1) ++ (putU64 intent.2.1 ++ putU8 (putBit intent.2.2))

@[simp] theorem accepts_getIntent {encoding : RecordEncoding} {intent : Bool × UInt64 × Bool} :
    Accepts (getIntent encoding) input intent left ↔ input = intentBytes encoding intent ++ left ∧
      (encoding = .v2 → (true, 0, false) = intent) := by
  obtain ⟨userPaused, intent, blocked⟩ := intent
  by_cases hv2 : encoding = .v2
  · simp [getIntent, intentBytes, hv2, and_comm]
  · simp [getIntent, intentBytes, hv2, -Bool.exists_bool]

theorem VariantsValid.readable {variants : Variants} (h : record.VariantsValid variants) :
    variants.Readable record.encoding.minimum := by
  have hcount := h.count_le
  unfold maxVariants at hcount
  have hselected := h.selected_lt
  refine ⟨⟨h.count_ge, h.count_le⟩, by omega, fun index hindex => ?_, fun candidate hmem => ?_⟩
  · have hcommitted := h.committed_lt index hindex
    omega
  · exact ⟨h.charged candidate hmem, h.verified_length candidate hmem⟩

theorem Valid.intent_eq (h : record.Valid) (hv2 : record.encoding = .v2) :
    (true, 0, false) = (record.userPaused, record.intent, record.blocked) := by
  have hintent := h.intent
  unfold badIntent at hintent
  simp_all

theorem Valid.variants_eq (h : record.Valid) :
    record.variants.isSome = record.encoding.hasVariants := by
  cases hvariants : record.variants with
  | none => exact (h.variants_none hvariants).symm
  | some variants => exact (h.variants_some variants hvariants).encoding.symm

theorem Valid.export_eq (h : record.Valid) (hne : record.encoding ≠ .downloadV2) :
    (.none, none) = (record.exported, record.planned) := by
  have hjournal := h.journal
  have hplanned := h.planned
  cases hexported : record.exported <;> cases hplan : record.planned <;> simp_all [Export.journal]

theorem length_putIntent_le (record : Record) : record.putIntent.length ≤ 10 := by
  unfold putIntent
  split <;> simp

@[simp] theorem accepts_getVariants {encoding : RecordEncoding} {variants : Option Variants} :
    Accepts (getVariants encoding) input variants left ↔ input = putVariants variants ++ left ∧
      variants.isSome = encoding.hasVariants ∧
      ∀ found ∈ variants, found.Readable encoding.minimum := by
  cases hhas : encoding.hasVariants <;> cases variants <;>
    simp [getVariants, putVariants, hhas]

theorem length_putVariants_le (h : record.Valid) :
    (putVariants record.variants).length
      ≤ if record.encoding.hasVariants then 285547 else 0 := by
  cases hvariants : record.variants with
  | none => simp [putVariants]
  | some variants =>
    have hvalid := h.variants_some variants hvariants
    rw [if_pos hvalid.encoding, putVariants]
    exact Variants.length_put_le hvalid.bounded

@[simp] theorem accepts_getPlanned {planned : Option PlannedDestination} :
    Accepts getPlanned input planned left ↔ input = putPlanned planned ++ left ∧
      ∀ found ∈ planned, found.valid = true := by
  cases planned <;> simp [getPlanned, putPlanned]

/-- The export section of an encoding, as the encoder writes it. -/
def exportBytes (encoding : RecordEncoding) (pair : Export × Option PlannedDestination) : Bytes :=
  if encoding = .downloadV2 then pair.1.put ++ putPlanned pair.2 else []

@[simp] theorem accepts_getExport {encoding : RecordEncoding}
    {pair : Export × Option PlannedDestination} :
    Accepts (getExport encoding) input pair left ↔ input = exportBytes encoding pair ++ left ∧
      (∀ journal ∈ pair.1.journal, journal.valid = true) ∧
      (∀ planned ∈ pair.2, planned.valid = true) ∧
      (encoding ≠ .downloadV2 → (.none, none) = pair) := by
  obtain ⟨exported, planned⟩ := pair
  by_cases hdownload : encoding = .downloadV2
  · simp [getExport, exportBytes, hdownload, and_assoc]
  · simp [getExport, exportBytes, hdownload]
    grind [Export.journal]

/-- A journal and a planned destination exclude each other. -/
theorem length_putExport_le (h : record.Valid) :
    record.putExport.length ≤ if record.encoding.hasVariants then 35964 else 0 := by
  unfold putExport
  by_cases hdownload : record.encoding = .downloadV2
  · have hjournal : record.exported.put.length ≤ 18516 :=
      Export.length_put_le fun journal hmem => (h.journal journal hmem).2
    have hplanned : (putPlanned record.planned).length ≤ 17448 := by
      cases hplanned : record.planned with
      | none => simp [putPlanned]
      | some planned =>
        have hlength := PlannedDestination.length_put_le (h.planned planned hplanned).2.1
        rw [putPlanned, List.length_append, length_putU8]
        omega
    rw [if_pos hdownload, hdownload, List.length_append]
    simp only [RecordEncoding.hasVariants, if_true]
    omega
  · rw [if_neg hdownload]
    simp

/-! ## Whole records -/

/-- Every accepted record fits the slot of its encoding. -/
theorem length_encode_le (h : record.Valid) : record.encode.length + 40 ≤ record.slotLimit := by
  obtain ⟨charge, hcharge⟩ := h.charged
  have hbounded := KeepPlan.bounded_of_charge hcharge
  have hplan := KeepPlan.length_encode_le hbounded
  have hchunks := hbounded.chunks_le
  have hverified := h.verified_length
  have hgroup := h.group_le
  have hdomain := RecordEncoding.length_domain_le record.encoding
  have hretry := length_putRetry_le record.lastRetry
  have hintent := length_putIntent_le record
  have hvariants := length_putVariants_le h
  have hexport := length_putExport_le h
  unfold chunkLimit at hchunks
  simp only [encode, slotLimit, RecordEncoding.slotLimit, variantRecordLimit, recordLimit,
    List.length_append, length_framed, length_putHash, length_putU64, length_putU8,
    length_putBitmap, KeepAllowance.length_put]
  split at hvariants
  · rename_i hhas
    rw [if_pos hhas] at hexport ⊢
    omega
  · rename_i hhas
    rw [if_neg hhas] at hexport ⊢
    omega

theorem receipt_transfer (h : record.Valid) :
    ∀ receipt ∈ record.lastRetry, receipt.request.transfer = record.transfer := by
  intro receipt hmem
  have hreceipt := option_any_eq_false.mp h.receipt receipt hmem
  simp only [Bool.or_eq_false_iff, decide_eq_false_iff_not, not_not] at hreceipt
  exact hreceipt.1.1

/-- The fields of an accepted record are read back. -/
theorem accepts_fields (h : record.Valid) {size : Nat} (hsize : size + 40 ≤ record.slotLimit)
    (hinput : framed record.encoding.domain ++ input = record.encode ++ left) :
    Accepts (getFields size record.encoding) input record left := by
  have hplan := plan_length_lt h.charged
  have hgroup : record.scope.group.length < 2 ^ 32 := lt_of_le_of_lt h.group_le (by decide)
  have hlength := h.verified_length
  obtain ⟨_, _, _, _, ⟨group, device⟩, _⟩ := record
  rw [encode, List.append_assoc, List.append_cancel_left_eq] at hinput
  simp [getFields, KeepPlan.decode_eq_ok, -Bool.exists_bool]
  exact ⟨hsize, ⟨by
    simpa [putIntent, putExport, intentBytes, exportBytes] using hinput, hgroup⟩,
      ⟨h.group_ne, h.group_le⟩, hplan.1, h.charged,
    ⟨hlength ▸ hplan.2, hlength⟩, receipt_transfer h, by simpa using h.intent_eq,
    ⟨h.variants_eq, fun variants hmem => (h.variants_some variants hmem).readable⟩,
    fun journal hmem => (h.journal journal hmem).2,
    fun planned hmem => (h.planned planned hmem).2.1, by simpa using h.export_eq⟩

theorem accepts_get {size : Nat} : Accepts (get size) input record left ↔
    ∃ encoding after, input = framed encoding.domain ++ after ∧
      Accepts (getFields size encoding) after record left := by
  simp only [get, accepts_bind, accepts_orMalformed, accepts_getBytes]
  constructor
  · rintro ⟨domain, after, ⟨rfl, -⟩, h⟩
    split at h
    · cases h
    · rename_i encoding hencoding
      exact ⟨encoding, after, by rw [RecordEncoding.domain_of_ofDomain hencoding], h⟩
  · rintro ⟨encoding, after, rfl, h⟩
    have hdomain := RecordEncoding.length_domain_le encoding
    refine ⟨encoding.domain, after, ⟨rfl, by omega⟩, ?_⟩
    rw [RecordEncoding.ofDomain_domain]
    exact h

/-- An accepted record is read back. -/
theorem decode_encode (h : record.validate = .ok ()) : decode record.encode = .ok record := by
  have hvalid := valid_of_validate h
  have hlimit : ¬ record.encode.length + 40 > variantRecordLimit := by
    have hslot := length_encode_le hvalid
    unfold slotLimit RecordEncoding.slotLimit at hslot
    have hle : recordLimit ≤ variantRecordLimit := by decide
    split at hslot <;> omega
  have hget : Accepts (get record.encode.length) record.encode record [] :=
    accepts_get.mpr ⟨record.encoding, _, rfl, accepts_fields hvalid (length_encode_le hvalid)
      (List.append_nil _).symm⟩
  rw [decode, if_neg hlimit, whole_eq_ok.mpr hget, ok_bind, h]
  rfl

/-- What stands behind a domain is the rest of an encoding. -/
theorem encode_of_accepts {size : Nat} {encoding : RecordEncoding}
    (h : Accepts (getFields size encoding) input record left) :
    framed encoding.domain ++ input = record.encode ++ left := by
  obtain ⟨_, _, _, _, ⟨group, device⟩, _⟩ := record
  simp [getFields, KeepPlan.decode_eq_ok, -Bool.exists_bool] at h
  obtain ⟨-, ⟨rfl, -⟩, -, -, -, -, -, -, -, -, rfl⟩ := h
  simp [encode, putIntent, putExport, intentBytes, exportBytes]

/-- The bytes of a decoded record are its encoding. -/
theorem encode_of_decode {bytes : Bytes} (h : decode bytes = .ok record) :
    record.encode = bytes ∧ record.validate = .ok () := by
  unfold decode at h
  split at h
  · cases h
  · obtain ⟨found, hwhole, h⟩ := bind_eq_ok.mp h
    obtain ⟨⟨⟩, hvalidate, h⟩ := bind_eq_ok.mp h
    cases h
    obtain ⟨encoding, after, rfl, hfields⟩ := accepts_get.mp (whole_eq_ok.mp hwhole)
    have hencode := encode_of_accepts hfields
    rw [List.append_nil] at hencode
    exact ⟨hencode.symm, hvalidate⟩

/-- Two accepted records of one digest are the same record, unless their encodings collide. -/
theorem eq_of_digest_eq [Blake3] {left right : Record} (hleft : left.validate = .ok ())
    (hright : right.validate = .ok ())
    (hfree : Set.InjOn Blake3.blake3 {left.encode, right.encode})
    (h : left.digest = right.digest) : left = right := by
  have hencode : left.encode = right.encode := hfree (by simp) (by simp) h
  have hdecode := decode_encode hleft
  rw [hencode, decode_encode hright] at hdecode
  exact (Except.ok.inj hdecode).symm

/-- Plans, records in every encoding, candidates, journals, export states and planned destinations
are written in one way and read back, and a predecessor digest names one record. -/
theorem transfer_records_canonical [Blake3] :
    ((∀ bytes plan, KeepPlan.decode bytes = .ok plan → plan.encode = bytes) ∧
      ∀ plan charge, KeepPlan.charge plan = .ok charge → KeepPlan.decode plan.encode = .ok plan) ∧
    ((∀ bytes record, decode bytes = .ok record → record.encode = bytes) ∧
      ∀ record : Record, record.validate = .ok () → decode record.encode = .ok record) ∧
    ((∀ minimum, Spells (Variants.get minimum) Variants.put) ∧
      ∀ (record : Record) (variants : Variants), record.variants = some variants →
        record.validateVariants = .ok () →
        Reads (Variants.get record.encoding.minimum) variants.put variants) ∧
    (Spells ExportJournal.get ExportJournal.put ∧
      ∀ journal : ExportJournal, journal.valid = true →
        Reads ExportJournal.get journal.put journal) ∧
    (Spells Export.get Export.put ∧
      ∀ record : Record, record.validateExport = .ok () →
        Reads Export.get record.exported.put record.exported) ∧
    (Spells PlannedDestination.get PlannedDestination.put ∧
      ∀ planned : PlannedDestination, planned.valid = true →
        Reads PlannedDestination.get planned.put planned) ∧
    ∀ next left right : Record, left.validate = .ok () → right.validate = .ok () →
      Set.InjOn Blake3.blake3 {left.encode, right.encode} →
      next.predecessor = left.digest → next.predecessor = right.digest → left = right := by
  refine ⟨⟨?_, ?_⟩, ⟨?_, ?_⟩, ⟨?_, ?_⟩, ⟨?_, ?_⟩, ⟨?_, ?_⟩, ⟨?_, ?_⟩, ?_⟩
  · exact fun bytes plan h => (KeepPlan.decode_eq_ok.mp h).1.symm
  · exact fun plan charge h => KeepPlan.decode_eq_ok.mpr ⟨rfl, charge, h⟩
  · exact fun bytes record h => (encode_of_decode h).1
  · exact fun record h => decode_encode h
  · exact fun minimum => .of_accepts fun h => (Variants.accepts_get.mp h).1
  · intro record variants hvariants h rest
    exact Variants.accepts_get.mpr ⟨rfl, (variantsValid_of_validate hvariants h).readable⟩
  · exact .of_accepts fun h => (ExportJournal.accepts_get.mp h).1
  · exact fun journal h rest => ExportJournal.accepts_get.mpr ⟨rfl, h⟩
  · exact .of_accepts fun h => (Export.accepts_get.mp h).1
  · intro record h rest
    exact Export.accepts_get.mpr ⟨rfl, fun journal hmem =>
      (journal_of_validate (guard_eq_ok.mp h).2 journal hmem).2⟩
  · exact .of_accepts fun h => (PlannedDestination.accepts_get.mp h).1
  · exact fun planned h rest => PlannedDestination.accepts_get.mpr ⟨rfl, h⟩
  · intro next left right hleft hright hfree hpredecessor hsame
    exact eq_of_digest_eq hleft hright hfree (hpredecessor.symm.trans hsame)

/-- A new transfer of one chunk is accepted, read back and the only record of its digest. -/
theorem transfer_records_canonical_one_chunk :
    letI : Blake3 := ⟨fun bytes => BitVec.ofNat _ (beNat bytes)⟩
    let record := Record.sample
    let plan := record.plan
    record.validate = .ok () ∧ KeepPlan.decode plan.encode = .ok plan ∧
      decode record.encode = .ok record ∧
      ∀ other : Record, other.validate = .ok () →
        Set.InjOn Blake3.blake3 {record.encode, other.encode} →
        other.digest = record.digest → record = other := by
  let : Blake3 := ⟨fun bytes => BitVec.ofNat _ (beNat bytes)⟩
  intro record plan
  obtain ⟨⟨-, hplan⟩, ⟨-, hrecord⟩, -, -, -, -, hdigest⟩ := transfer_records_canonical
  have hvalidate : record.validate = .ok () := by decide +kernel
  refine ⟨hvalidate, hplan plan 211 (by decide +kernel), hrecord record hvalidate, ?_⟩
  intro other hother hfree hsame
  exact hdigest { record with predecessor := record.digest } record other hvalidate hother hfree rfl
    hsame.symm

end Record

end Kept
end Mewtual
