import Mewtual.Epoch.BookCodec
import Mewtual.Epoch.OwnerJournal

/-!
# The persisted owner journal

Canonical journal bytes in their two versions. A journal that was never repaired keeps the
first version, which stores the two publication roles and rederives the document and the
tenure from them; a repaired journal stores every role explicitly and is validated in full
when it is restored.

Main results:

- Theorem {lit}`OwnerReceiptJournal.Restorable.decode_encode`: a restorable journal fits its
  cap and is read back unchanged.
- Theorem {lit}`OwnerReceiptJournal.eq_of_decode`: whatever an unrepaired journal's bytes
  decode to is that journal.
-/

namespace Mewtual

/-! ## Fields -/

/-- An optional tenure after its presence byte. -/
def putOwnerTenure : Option OwnerTenure → Bytes
  | some tenure => putU8 1 ++ (putHash tenure.id ++ putU64 tenure.start ++ framed tenure.key)
  | none => putU8 0

def getOwnerTenureFields : Parser OwnerTenure := do
  let id ← getFixed 32
  let start ← Decoder.orMalformed getU64
  let key ← Decoder.orMalformed getBytes
  pure ⟨id, start, key⟩

def getOwnerTenure : Parser (Option OwnerTenure) := getOptional getOwnerTenureFields

/-- An optional retired receipt with its close. -/
def putRetired : Option (Receipt × CloseRecord) → Bytes
  | some (receipt, close) => putReceipt (some receipt) ++ framed close.encode
  | none => putReceipt none

/-- The close that follows a retired receipt. -/
def getRetiredClose : Option Receipt → Parser (Option (Receipt × CloseRecord))
  | none => pure none
  | some receipt => do
    let close ← getNested CloseRecord.decode
    pure (some (receipt, close))

/-- Read an optional retired receipt with its close. -/
def getRetired [Crypto] : Parser (Option (Receipt × CloseRecord)) := do
  let receipt ← getReceipt
  getRetiredClose receipt

def putBool (value : Bool) : Bytes := putU8 (if value then 1 else 0)

/-- Read a byte that is zero or one. -/
def getBool : Parser Bool := do
  let tag ← Decoder.orMalformed getU8
  if tag = 0 then pure false
  else if tag = 1 then pure true
  else throw .malformed

/-- The role byte tells a reconciled choice from evidence alone. -/
def putProvenance (reconciled : Option Receipt) : Option Provenance → Bytes
  | some proof => putU8 (if reconciled.isSome then 1 else 2) ++ (proof.resolved.encodeInto
      ++ putBool proof.sourceFinalized ++ putRetired proof.retired)
  | none => putU8 0

def getProvenanceFields [Crypto] : Parser Provenance := do
  let resolved ← ResolvedRepair.decodeFrom
  let sourceFinalized ← getBool
  let retired ← getRetired
  pure ⟨resolved, retired, sourceFinalized⟩

/-- Read the provenance of a reconciled receipt. -/
def getProvenance [Crypto] (reconciled : Option Receipt) : Parser (Option Provenance) := do
  let role ← Decoder.orMalformed getU8
  if role = 0 then pure none
  else if role = 1 ∨ role = 2 then
    if decide (role = 1) ≠ reconciled.isSome then throw .malformed
    some <$> getProvenanceFields
  else throw .malformed

theorem getOwnerTenure_reads {tenure : Option OwnerTenure}
    (hkey : ∀ held ∈ tenure, held.key.length < 2 ^ 32) :
    Reads getOwnerTenure (putOwnerTenure tenure) tenure := by
  cases tenure with
  | none => exact getOptional_none _
  | some held =>
    refine getOptional_some ?_
    simp [-accepts_getBytes, reads_iff, getOwnerTenureFields,
      (getBytes_framed (hkey held rfl)).accepts]

theorem getBool_put (value : Bool) : Reads getBool (putBool value) value := by
  cases value <;> simp [reads_iff, getBool, putBool]

theorem getRetired_reads [Crypto] {retired : Option (Receipt × CloseRecord)}
    (h : ∀ pair ∈ retired, pair.1.WellFormed ∧ CloseRecord.decode pair.2.encode = .ok pair.2) :
    Reads getRetired (putRetired retired) retired := by
  cases retired with
  | none =>
    simp [reads_iff, getRetired, putRetired, getRetiredClose,
      (ReceiptBook.getReceipt_reads forall_mem_none).accepts]
  | some pair =>
    rcases h pair rfl with ⟨hreceipt, hclose⟩
    have hlen : pair.2.encode.length < 2 ^ 32 :=
      Nat.lt_of_le_of_lt (CloseRecord.length_encode_of_decode hclose).2 (by decide)
    simp [reads_iff, getRetired, putRetired, getRetiredClose,
      (getNested_framed hlen hclose).accepts,
      (ReceiptBook.getReceipt_reads (forall_mem_some.mpr hreceipt)).accepts]

theorem getProvenance_reads [Crypto] {reconciled : Option Receipt}
    {provenance : Option Provenance}
    (h : ∀ proof ∈ provenance, proof.resolved.repair.WellFormed ∧
      proof.resolved.selected.WellFormed ∧ proof.resolved.losing.WellFormed ∧
      ∀ pair ∈ proof.retired, pair.1.WellFormed ∧
        CloseRecord.decode pair.2.encode = .ok pair.2) :
    Reads (getProvenance reconciled) (putProvenance reconciled provenance) provenance := by
  cases provenance with
  | none => simp [reads_iff, getProvenance, putProvenance]
  | some proof =>
    rcases h proof rfl with ⟨hrepair, hselected, hlosing, hretired⟩
    cases hreconciled : reconciled.isSome <;>
      simp [-Bool.exists_bool, reads_iff, getProvenance, getProvenanceFields, putProvenance,
        hreconciled, (ResolvedRepair.decodeFrom_encodeInto hrepair hselected hlosing).accepts,
        (getBool_put _).accepts, (getRetired_reads hretired).accepts]

namespace OwnerReceiptJournal

/-! ## The journal -/

/-- {lit}`MAX_V1_BYTES`. -/
def maxV1Bytes : Nat := 3 * maxReceiptBytes + 256

/-- The selection the first version stores beside its two roles. -/
def storedSelection (journal : OwnerReceiptJournal) : Option TenureSelection :=
  (journal.highWater.or journal.inFlight).map Receipt.selection

/-- Canonical plaintext journal bytes. -/
def encode (journal : OwnerReceiptJournal) : Bytes :=
  putU8 (if journal.versionTwo then 2 else 1) ++ (putReceipt journal.highWater
    ++ (putReceipt journal.inFlight
      ++ if journal.versionTwo then
          putReceipt journal.reconciled ++ (putOwnerTenure journal.tenure
            ++ putProvenance journal.reconciled journal.provenance)
        else putTenure journal.storedSelection))

/-- The roles the first version stores. -/
@[simps] def firstVersion (highWater inFlight : Option Receipt) : OwnerReceiptJournal :=
  { empty with highWater, inFlight }

/-- The fields of a journal and the selection stored with the first version. -/
def getJournal [Crypto] (length : Nat) :
    Parser (OwnerReceiptJournal × Option TenureSelection) := do
  let version ← Decoder.orMalformed getU8
  if version = 1 ∧ length > maxV1Bytes then throw .epochBound
  if version ≠ 1 ∧ version ≠ 2 then throw .malformed
  let highWater ← getReceipt
  let inFlight ← getReceipt
  if version = 1 then
    let selection ← getTenure
    Decoder.orMalformed finish
    pure (firstVersion highWater inFlight, selection)
  else
    let reconciled ← getReceipt
    let tenure ← getOwnerTenure
    let provenance ← getProvenance reconciled
    Decoder.orMalformed finish
    pure (⟨none, tenure, highWater, inFlight, reconciled, provenance, true⟩, none)

/-- Rederive the document from the effective choice. -/
@[simps] def derivedDocument (journal : OwnerReceiptJournal) : OwnerReceiptJournal :=
  { journal with document := journal.effectiveChoice.map Receipt.document }

/-- Rederive the tenure from the effective choice. -/
@[simps] def derivedTenure (journal : OwnerReceiptJournal) : OwnerReceiptJournal :=
  { journal with tenure := journal.effectiveChoice.map Receipt.ownerTenure }

/-- What a version one journal may hold. -/
def checkFirstVersion (journal : OwnerReceiptJournal) (selection : Option TenureSelection) :
    Except ReplError Unit := do
  if journal.document.isSome ≠ selection.isSome then throw .malformed
  if ∃ receipt ∈ journal.highWater.toList ++ journal.inFlight.toList,
      journal.document ≠ some receipt.document ∨ selection ≠ some receipt.selection then
    throw .malformed
  journal.validateAdjacency

/-- Restore authenticated owner-local state. -/
def decode [Crypto] (bytes : Bytes) : Except ReplError OwnerReceiptJournal := do
  if bytes.length > maxOwnerReceiptJournalBytes then throw .epochBound
  let (journal, selection) ← Parser.parse (getJournal bytes.length) bytes
  if journal.versionTwo then
    journal.derivedDocument.validateV2
    pure journal.derivedDocument
  else
    journal.derivedDocument.derivedTenure.checkFirstVersion selection
    pure journal.derivedDocument.derivedTenure

/-- What restoring a journal relies on. -/
structure Restorable [Crypto] (journal : OwnerReceiptJournal) : Prop where
  document : journal.document = journal.effectiveChoice.map Receipt.document
  roles : ∀ receipt ∈ journal.roles, receipt.WellFormed ∧
    journal.document = some receipt.document ∧ journal.tenure = some receipt.ownerTenure
  adjacency : ∀ pending ∈ journal.inFlight, FollowsHead journal.canonicalHead pending
  first : journal.versionTwo = false → journal.reconciled = none ∧ journal.provenance = none ∧
    journal.tenure = journal.effectiveChoice.map Receipt.ownerTenure
  second : journal.versionTwo = true → journal.ValidV2

section Restoring

variable [Crypto] {journal : OwnerReceiptJournal}

omit [Crypto] in
theorem mem_roles {receipt : Receipt} :
    receipt ∈ journal.roles ↔ receipt ∈ journal.highWater ∨ receipt ∈ journal.inFlight ∨
      receipt ∈ journal.reconciled := by
  simp [roles]

theorem Restorable.highWater (h : journal.Restorable) :
    ∀ receipt ∈ journal.highWater, receipt.WellFormed :=
  fun receipt hmem => (h.roles receipt (mem_roles.mpr (.inl hmem))).1

theorem Restorable.inFlight (h : journal.Restorable) :
    ∀ receipt ∈ journal.inFlight, receipt.WellFormed :=
  fun receipt hmem => (h.roles receipt (mem_roles.mpr (.inr (.inl hmem)))).1

theorem Restorable.reconciled (h : journal.Restorable) :
    ∀ receipt ∈ journal.reconciled, receipt.WellFormed :=
  fun receipt hmem => (h.roles receipt (mem_roles.mpr (.inr (.inr hmem)))).1

theorem ProofOk.evidence {proof : Provenance} (h : journal.ProofOk proof) :
    EvidencePair proof.resolved.repair proof.resolved.selected proof.resolved.losing :=
  (ResolvedRepair.verify_eq_ok h.verified).2.1

theorem ProofOk.records {proof : Provenance} (h : journal.ProofOk proof) :
    proof.resolved.repair.WellFormed ∧ proof.resolved.selected.WellFormed ∧
      proof.resolved.losing.WellFormed ∧ ∀ pair ∈ proof.retired, pair.1.WellFormed ∧
        CloseRecord.decode pair.2.encode = .ok pair.2 := by
  have hhistorical := (ResolvedRepair.verify_eq_ok h.verified).1
  refine ⟨ResolvedRepair.wellFormed_of_historical hhistorical h.evidence,
    h.selected.wellFormed, h.losing.wellFormed, ?_⟩
  intro pair hpair
  rcases h.retired pair hpair with ⟨hreceipt, hretired⟩
  refine ⟨hreceipt.wellFormed, ?_⟩
  unfold validateRetired at hretired
  rcases guard_eq_ok.mp hretired with ⟨-, hretired⟩
  rcases bind_eq_ok.mp hretired with ⟨decoded, hdecode, hretired⟩
  rcases guard_eq_ok.mp hretired with ⟨hsame, -⟩
  rw [hdecode, not_not.mp hsame]

/-- The receipt the stored selection is taken from. -/
theorem Restorable.stored (h : journal.Restorable) :
    ∀ receipt ∈ journal.highWater.or journal.inFlight, receipt.WellFormed := by
  intro receipt hreceipt
  rcases Option.or_eq_some_iff.mp hreceipt with hhigh | ⟨-, hpending⟩
  · exact h.highWater receipt hhigh
  · exact h.inFlight receipt hpending

omit [Crypto] in
theorem mem_roles_of_choice {choice : Receipt} (hchoice : choice ∈ journal.effectiveChoice) :
    choice ∈ journal.roles := by
  rw [mem_roles]
  rcases Option.or_eq_some_iff.mp hchoice with hpending | ⟨-, hhead⟩
  · exact .inr (.inl hpending)
  · rcases Option.or_eq_some_iff.mp hhead with hreconciled | ⟨-, hhigh⟩
    · exact .inr (.inr hreconciled)
    · exact .inl hhigh

theorem Restorable.tenure_key (h : journal.Restorable) (hversion : journal.versionTwo = true) :
    ∀ held ∈ journal.tenure, held.key.length = 32 := by
  intro held hheld
  have hnamed := (h.second hversion).named
  rw [Option.mem_def.mp hheld, Option.isSome_some, Option.isSome_iff_exists] at hnamed
  rcases hnamed with ⟨document, hdocument⟩
  rw [h.document] at hdocument
  rcases Option.map_eq_some_iff.mp hdocument with ⟨choice, hchoice, -⟩
  rcases h.roles choice (mem_roles_of_choice hchoice) with ⟨hwf, -, htenure⟩
  rw [Option.mem_def.mp hheld] at htenure
  rw [Option.some.inj htenure]
  exact hwf.ownerPublicKey

/-- The bytes of the first version fit its own cap. -/
theorem Restorable.length_first_le (h : journal.Restorable)
    (hversion : journal.versionTwo = false) : journal.encode.length ≤ maxV1Bytes := by
  have hhigh := ReceiptBook.length_putReceipt_le h.highWater
  have hpending := ReceiptBook.length_putReceipt_le h.inFlight
  have hstored := ReceiptBook.length_putTenure_le h.stored
  have hcap : maxV1Bytes = 3328 := rfl
  rw [encode, hversion, hcap, storedSelection]
  simp only [Bool.false_eq_true, if_false, List.length_append, length_putU8]
  omega

/-- The bytes of the second version fit the journal's cap. -/
theorem Restorable.length_second_le (h : journal.Restorable)
    (hversion : journal.versionTwo = true) :
    journal.encode.length ≤ maxOwnerReceiptJournalBytes := by
  have hhigh := ReceiptBook.length_putReceipt_le h.highWater
  have hpending := ReceiptBook.length_putReceipt_le h.inFlight
  have hreconciled := ReceiptBook.length_putReceipt_le h.reconciled
  have htenure : (putOwnerTenure journal.tenure).length ≤ 81 := by
    cases hheld : journal.tenure with
    | none => simp [putOwnerTenure]
    | some held =>
      have hkey := h.tenure_key hversion held hheld
      simp only [putOwnerTenure, List.length_append, length_putU8, length_putHash,
        length_putU64, length_framed]
      omega
  have hproof : (putProvenance journal.reconciled journal.provenance).length ≤ 8215 := by
    cases hheld : journal.provenance with
    | none => simp [putProvenance]
    | some proof =>
      rcases ((h.second hversion).proof proof hheld).records with
        ⟨hrepair, hselected, hlosing, hretired⟩
      have hr := hrepair.length_encode_le
      have hs := hselected.toSelfConsistent.length_encode_le
      have hl := hlosing.toSelfConsistent.length_encode_le
      have hret : (putRetired proof.retired).length ≤ 5129 := by
        cases hpair : proof.retired with
        | none => simp [putRetired, putReceipt]
        | some pair =>
          rcases hretired pair hpair with ⟨hreceipt, hclose⟩
          have hlen := hreceipt.toSelfConsistent.length_encode_le
          have hcap := (CloseRecord.length_encode_of_decode hclose).2
          unfold maxReceiptBytes at hlen
          unfold maxCloseRecordBytes at hcap
          simp only [putRetired, putReceipt, List.length_append, length_putU8, length_framed]
          omega
      unfold maxReceiptBytes at hr hs hl
      simp only [putProvenance, ResolvedRepair.encodeInto, putBool, List.length_append,
        length_putU8, length_framed]
      omega
  have hcap : maxOwnerReceiptJournalBytes = 12288 := rfl
  rw [encode, hversion, hcap]
  simp only [if_true, List.length_append, length_putU8]
  omega

/-- The bytes of a first version are accepted exactly when they are short and its roles are well
formed, and its roles are what is returned. -/
theorem run_getJournal (hversion : journal.versionTwo = false)
    (hlen : journal.encode.length < 2 ^ 32) {length : Nat}
    {result : (OwnerReceiptJournal × Option TenureSelection) × Bytes} :
    (getJournal length).run journal.encode = .ok result ↔ length ≤ maxV1Bytes ∧
      (∀ receipt ∈ journal.highWater, receipt.WellFormed) ∧
      (∀ receipt ∈ journal.inFlight, receipt.WellFormed) ∧
      (∀ selection ∈ journal.storedSelection,
        selection.inherited.WellFormed ∧ selection.ownerPublicKey.length = 32) ∧
      result = ((firstVersion journal.highWater journal.inFlight, journal.storedSelection),
        []) := by
  rw [encode, hversion] at hlen ⊢
  simp only [Bool.false_eq_true, if_false, List.length_append] at hlen ⊢
  rw [getJournal, (getU8_putU8 _).orMalformed.run_bind, run_guard_eq_ok, if_neg (by decide),
    (ReceiptBook.getReceipt_when (by omega)).run_bind,
    (ReceiptBook.getReceipt_when (by omega)).run_bind, if_pos rfl, ← List.append_nil (putTenure _),
    (ReceiptBook.getTenure_when (by omega)).run_bind, finish_run_bind, ReadsWhen.run_pure,
    and_iff_right rfl, Nat.not_lt]

/-- The roles of the first version are read back. -/
theorem Restorable.parse_first (h : journal.Restorable) (hversion : journal.versionTwo = false) :
    Parser.parse (getJournal journal.encode.length) journal.encode
      = .ok (firstVersion journal.highWater journal.inFlight, journal.storedSelection) := by
  have hlen := h.length_first_le hversion
  have hstored : ∀ selection ∈ journal.storedSelection,
      selection.inherited.WellFormed ∧ selection.ownerPublicKey.length = 32 := by
    rw [storedSelection, Option.forall_mem_map]
    exact fun held hheld => ⟨(h.stored held hheld).inherited, (h.stored held hheld).ownerPublicKey⟩
  rw [Parser.parse, (run_getJournal hversion (Nat.lt_of_le_of_lt hlen (by decide))).mpr
    ⟨hlen, h.highWater, h.inFlight, hstored, rfl⟩]
  rfl

/-- Every role of the second version is read back. -/
theorem Restorable.parse_second (h : journal.Restorable) (hversion : journal.versionTwo = true) :
    Parser.parse (getJournal journal.encode.length) journal.encode
      = .ok (⟨none, journal.tenure, journal.highWater, journal.inFlight, journal.reconciled,
        journal.provenance, true⟩, none) := by
  have hkey : ∀ held ∈ journal.tenure, held.key.length < 2 ^ 32 := by
    intro held hheld
    rw [h.tenure_key hversion held hheld]
    decide
  generalize journal.encode.length = length
  rw [Parser.parse, getJournal, encode, hversion, (getU8_putU8 _).orMalformed.run_bind,
    if_neg (fun hone => absurd hone.1 (by decide)), if_neg (by decide),
    (ReceiptBook.getReceipt_reads h.highWater).run_bind,
    (ReceiptBook.getReceipt_reads h.inFlight).run_bind, if_neg (by decide), if_pos (by decide),
    (ReceiptBook.getReceipt_reads h.reconciled).run_bind,
    (getOwnerTenure_reads hkey).run_bind, ← List.append_nil (putProvenance _ _),
    (getProvenance_reads fun proof hproof =>
      ((h.second hversion).proof proof hproof).records).run_bind, finish_run_bind]
  rfl

omit [Crypto] in
/-- A journal of the first version is what its two roles derive. -/
theorem derived_first (hversion : journal.versionTwo = false)
    (hreconciled : journal.reconciled = none) (hprovenance : journal.provenance = none)
    (hdocument : journal.document = journal.effectiveChoice.map Receipt.document)
    (htenure : journal.tenure = journal.effectiveChoice.map Receipt.ownerTenure) :
    (firstVersion journal.highWater journal.inFlight).derivedDocument.derivedTenure
      = journal := by
  have hchoice : (firstVersion journal.highWater journal.inFlight).effectiveChoice
      = journal.effectiveChoice := by
    rw [effectiveChoice, effectiveChoice, canonicalHead, canonicalHead, hreconciled]
    rfl
  ext1
  · rw [hdocument, ← hchoice]
    rfl
  · rw [htenure, ← hchoice]
    rfl
  · rfl
  · rfl
  · exact hreconciled.symm
  · exact hprovenance.symm
  · exact hversion.symm

/-- The checks of the first version pass. -/
theorem Restorable.checkFirstVersion (h : journal.Restorable)
    (hversion : journal.versionTwo = false) :
    journal.checkFirstVersion journal.storedSelection = .ok () := by
  rcases h.first hversion with ⟨hreconciled, -, -⟩
  have hchoice : journal.effectiveChoice = journal.inFlight.or journal.highWater := by
    rw [effectiveChoice, canonicalHead, hreconciled, Option.none_or]
  have hsome : journal.document.isSome = journal.storedSelection.isSome := by
    rw [h.document, hchoice, storedSelection]
    cases journal.inFlight <;> cases journal.highWater <;> rfl
  have hstored : ∀ receipt ∈ journal.highWater.toList ++ journal.inFlight.toList,
      journal.storedSelection = some receipt.selection := by
    intro receipt hmem
    rw [storedSelection]
    cases hhigh : journal.highWater with
    | none =>
      rw [hhigh, Option.toList_none, List.nil_append, Option.mem_toList] at hmem
      rw [Option.none_or, Option.mem_def.mp hmem]
      rfl
    | some base =>
      rw [Option.some_or, Option.map_some, Option.some.injEq]
      rw [hhigh, List.mem_append, Option.mem_toList, Option.mem_toList] at hmem
      rcases hmem with hbase | hpending
      · rw [Option.some.inj hbase]
      · -- The pending receipt follows the published one on the same selection.
        have hfollows := h.adjacency receipt hpending
        rw [canonicalHead, hreconciled, Option.none_or, hhigh] at hfollows
        exact hfollows.2.1
  have hroles : ¬ ∃ receipt ∈ journal.highWater.toList ++ journal.inFlight.toList,
      journal.document ≠ some receipt.document ∨
        journal.storedSelection ≠ some receipt.selection := by
    rintro ⟨receipt, hmem, hbad⟩
    have hrole : receipt ∈ journal.roles := List.mem_append_left _ hmem
    rcases hbad with hdocument | hselection
    · exact hdocument (h.roles receipt hrole).2.1
    · exact hselection (hstored receipt hmem)
  rw [OwnerReceiptJournal.checkFirstVersion, if_neg (not_not.mpr hsome), if_neg hroles]
  exact validateAdjacency_eq_ok.mpr h.adjacency

/-- A restorable journal fits its cap and is read back unchanged. -/
theorem Restorable.decode_encode (h : journal.Restorable) :
    journal.encode.length ≤ maxOwnerReceiptJournalBytes ∧
      decode journal.encode = .ok journal := by
  cases hversion : journal.versionTwo with
  | false =>
    have hlen : journal.encode.length ≤ maxOwnerReceiptJournalBytes :=
      (h.length_first_le hversion).trans (by decide)
    refine ⟨hlen, ?_⟩
    rcases h.first hversion with ⟨hreconciled, hprovenance, htenure⟩
    rw [decode, if_neg (Nat.not_lt.mpr hlen), h.parse_first hversion, ok_bind]
    dsimp only
    rw [derived_first hversion hreconciled hprovenance h.document htenure,
      if_neg (by rw [firstVersion_versionTwo]; decide), h.checkFirstVersion hversion]
    rfl
  | true =>
    have hlen := h.length_second_le hversion
    refine ⟨hlen, ?_⟩
    have hderived : derivedDocument ⟨none, journal.tenure, journal.highWater,
        journal.inFlight, journal.reconciled, journal.provenance, true⟩ = journal := by
      ext1
      · exact h.document.symm
      · rfl
      · rfl
      · rfl
      · rfl
      · rfl
      · exact hversion.symm
    rw [decode, if_neg (Nat.not_lt.mpr hlen), h.parse_second hversion, ok_bind]
    dsimp only
    rw [hderived, if_pos rfl, validateV2_eq_ok.mpr (h.second hversion)]
    rfl

/-- Whatever the bytes of an unrepaired journal decode to is that journal. -/
theorem eq_of_decode {restored : OwnerReceiptJournal} (hversion : journal.versionTwo = false)
    (hreconciled : journal.reconciled = none) (hprovenance : journal.provenance = none)
    (hdocument : journal.document = journal.effectiveChoice.map Receipt.document)
    (htenure : journal.tenure = journal.effectiveChoice.map Receipt.ownerTenure)
    (hok : decode journal.encode = .ok restored) : restored = journal := by
  unfold decode at hok
  rcases guard_eq_ok.mp hok with ⟨hlen, hok⟩
  rcases bind_eq_ok.mp hok with ⟨⟨parsed, selection⟩, hparse, hok⟩
  have hshort : journal.encode.length < 2 ^ 32 :=
    Nat.lt_of_le_of_lt (Nat.not_lt.mp hlen) (by decide)
  obtain ⟨left, hrun⟩ := Parser.run_of_parse hparse
  obtain ⟨-, -, -, -, hfields⟩ := (run_getJournal hversion hshort).mp hrun
  cases hfields
  dsimp only at hok
  rw [if_neg (by rw [firstVersion_versionTwo]; decide)] at hok
  rcases bind_eq_ok.mp hok with ⟨_, -, hok⟩
  cases hok
  exact derived_first hversion hreconciled hprovenance hdocument htenure

end Restoring

end OwnerReceiptJournal

end Mewtual
