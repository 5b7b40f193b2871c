import Mewtual.Epoch.Book

/-!
# The persisted receipt book

Canonical book bytes in their ordinary and adoption versions, and the restore that
rechecks every redundant field. The version byte separates five shapes: an ordinary book,
one whose head stands above an opening-epoch fault, an adoption book, and the two shapes
that carry a resolved repair.

Main results:

- Theorem {lit}`ReceiptBook.decodeMode_encodeMode`: a book of well-formed receipts that
  passes the restore checks is read back unchanged.
- Theorem {lit}`ReceiptBook.eq_of_decodeMode`: whatever a saved book decodes to agrees with
  it in every field but the derived document.
-/

namespace Mewtual

/-! ## Fields -/

/-- An optional tenure after its presence byte. -/
def putTenure : Option TenureSelection → Bytes
  | some tenure => putU8 1 ++ (putHash tenure.tenureId ++ putU64 tenure.tenureStartGroupEpoch
      ++ tenure.inherited.encodeInto ++ framed tenure.ownerPublicKey)
  | none => putU8 0

/-- Read the fields of a tenure. -/
def getSelection : Parser TenureSelection := do
  let tenureId ← getFixed 32
  let start ← Decoder.orMalformed getU64
  let inherited ← InheritedCheckpoint.decodeFrom
  let ownerPublicKey ← Decoder.orMalformed getBytes
  if ownerPublicKey.length ≠ 32 then throw .malformed
  pure ⟨tenureId, start, inherited, ownerPublicKey⟩

/-- Read an optional tenure. -/
def getTenure : Parser (Option TenureSelection) := getOptional getSelection

/-- An optional receipt after its presence byte. -/
def putReceipt : Option Receipt → Bytes
  | some receipt => putU8 1 ++ framed receipt.encode
  | none => putU8 0

/-- Read an optional receipt. -/
def getReceipt [Crypto] : Parser (Option Receipt) := getOptional (getNested Receipt.decode)

/-- An optional pair of conflicting receipts. -/
def putFault : Option (Receipt × Receipt) → Bytes
  | some (a, b) => putU8 1 ++ (framed a.encode ++ framed b.encode)
  | none => putU8 0

def getFaultPair [Crypto] : Parser (Receipt × Receipt) := do
  let a ← getNested Receipt.decode
  let b ← getNested Receipt.decode
  pure (a, b)

/-- Read an optional pair of conflicting receipts. -/
def getFault [Crypto] : Parser (Option (Receipt × Receipt)) := getOptional getFaultPair

/-- An optional applied repair. -/
def putResolved : Option ResolvedRepair → Bytes
  | some resolved => resolved.encodeInto
  | none => []

theorem getSelection_when {tenure : TenureSelection}
    (howner : tenure.ownerPublicKey.length < 2 ^ 32) :
    ReadsWhen getSelection (putHash tenure.tenureId ++ putU64 tenure.tenureStartGroupEpoch
      ++ tenure.inherited.encodeInto ++ framed tenure.ownerPublicKey)
      (tenure.inherited.WellFormed ∧ tenure.ownerPublicKey.length = 32) tenure := by
  cases tenure
  simp [-accepts_getBytes, readsWhen_iff, getSelection, (getBytes_framed howner).accepts,
    readsWhen_iff.mp (InheritedCheckpoint.decodeFrom_when _), and_comm, and_left_comm,
    and_assoc]

namespace ReceiptBook

/-! ## Saving -/

/-- A retained head above the fault pair. -/
def historicalFault (book : ReceiptBook) : Bool :=
  match book.fault, book.latest with
  | some (a, b), some latest => decide (latest ≠ a ∧ latest ≠ b)
  | _, _ => false

/-- The version byte of a saved book. -/
def version (book : ReceiptBook) (adoption : Bool) : UInt8 :=
  if book.resolvedRepair.isSome then (if adoption then 5 else 4)
  else if adoption then 3
  else if book.historicalFault then 2
  else 1

/-- The bytes of a book, before the size check. -/
def bytes (book : ReceiptBook) (adoption : Bool) : Bytes :=
  putU8 (book.version adoption) ++ (putTenure book.tenure ++ (putReceipt book.latest
    ++ (putReceipt book.previousUntilInstalled ++ (putFault book.fault
    ++ (putU64 book.repairSequence ++ putResolved book.resolvedRepair)))))

/-- The canonical bytes of a book, with or without an adoption. -/
def encodeMode (book : ReceiptBook) (adoption : Bool) : Except ReplError Bytes :=
  if (book.bytes adoption).length > maxReceiptBookBytes then .error .epochBound
  else .ok (book.bytes adoption)

/-- Canonical peer-local state. -/
def encode (book : ReceiptBook) : Except ReplError Bytes := book.encodeMode false

/-! ## Restoring -/

/-- The version bytes a decoder of this mode accepts. -/
def VersionOk : Bool → UInt8 → Prop
  | true, version => version = 3 ∨ version = 5
  | false, version => version = 1 ∨ version = 2 ∨ version = 4

instance (adoption : Bool) (version : UInt8) : Decidable (VersionOk adoption version) :=
  match adoption with
  | true => inferInstanceAs (Decidable (_ ∨ _))
  | false => inferInstanceAs (Decidable (_ ∨ _))

/-- Resolved evidence is present in versions four and five. -/
def getResolved [Crypto] (version : UInt8) : Parser (Option ResolvedRepair) :=
  if version = 4 ∨ version = 5 then some <$> ResolvedRepair.decodeFrom else pure none

/-- The document a restored book is about. -/
def derivedDocument (latest : Option Receipt) (resolved : Option ResolvedRepair) :
    Option LogicalDocument :=
  (latest.map (·.document)).or (resolved.map (·.repair.document))

/-- Read a book with its version. -/
def getBook [Crypto] (adoption : Bool) : Parser (UInt8 × ReceiptBook) := do
  let version ← Decoder.orMalformed getU8
  if ¬ VersionOk adoption version then throw .malformed
  let tenure ← getTenure
  let latest ← getReceipt
  let previous ← getReceipt
  let fault ← getFault
  let repairSequence ← Decoder.orMalformed getU64
  let resolved ← getResolved version
  Decoder.orMalformed finish
  pure (version, ⟨derivedDocument latest resolved, tenure, latest, previous, fault,
    repairSequence, resolved⟩)

/-- A retained head above the pair is the successor of the pair's epoch on one of its
selections. Only versions two and four may carry it. -/
def HeadAboveFault (version : UInt8) (a b latest : Receipt) : Prop :=
  (version = 2 ∨ version = 4) ∧ a.closedEpoch = b.closedEpoch ∧
    checkedAdd a.closedEpoch 1 = some latest.closedEpoch ∧
    (latest.selection = a.selection ∨ latest.selection = b.selection)

instance (version : UInt8) (a b latest : Receipt) :
    Decidable (HeadAboveFault version a b latest) :=
  inferInstanceAs (Decidable (_ ∧ _))

/-- What a restored fault pair must satisfy beside the restored head. -/
def FaultOk [Crypto] (adoption : Bool) (version : UInt8) (latest : Option Receipt)
    (a b : Receipt) : Prop :=
  a.hash < b.hash ∧ ReceiptsConflict a b ∧
    ∃ head ∈ latest, head = a ∨ head = b ∨ adoption = true ∨ HeadAboveFault version a b head

instance [Crypto] (adoption : Bool) (version : UInt8) (latest : Option Receipt)
    (a b : Receipt) : Decidable (FaultOk adoption version latest a b) :=
  inferInstanceAs (Decidable (_ ∧ _))

/-- Every receipt of the book beside its head. -/
def others (book : ReceiptBook) : List Receipt :=
  book.previousUntilInstalled.toList ++ (book.fault.toList.flatMap fun (a, b) => [a, b])

/-- The checks a restored book passes after parsing. -/
def checkRestored [Crypto] (book : ReceiptBook) (adoption : Bool) (version : UInt8) :
    Except ReplError Unit := do
  if book.tenure.isSome ≠ book.latest.isSome then throw .malformed
  if book.latest = none ∧ book.previousUntilInstalled ≠ none then throw .malformed
  if book.tenure ≠ book.latest.map Receipt.selection then throw .malformed
  if ¬ (∀ pair ∈ book.fault, FaultOk adoption version book.latest pair.1 pair.2) then
    throw .malformed
  if adoption = false ∧ version ≠ 4 ∧ decide (version = 2) ≠ book.historicalFault then
    throw .malformed
  if book.others.any (fun receipt => book.document ≠ some receipt.document) then
    throw .malformed
  match book.resolvedRepair with
  | some resolved => resolved.verify book.document book.repairSequence
  | none => pure ()

/-- Decode a book and check it against its canonical bytes. -/
def decodeMode [Crypto] (bytes : Bytes) (adoption : Bool) : Except ReplError ReceiptBook := do
  if bytes.length > maxReceiptBookBytes then throw .epochBound
  let (version, book) ← Parser.parse (getBook adoption) bytes
  book.checkRestored adoption version
  pure book

/-- Restore peer-local state without trusting redundant derived fields. -/
def decode [Crypto] (bytes : Bytes) : Except ReplError ReceiptBook := decodeMode bytes false

/-! ## Reading a saved book back -/

/-- Every record of the book is well formed and the tenure is that of its head. -/
structure Storable [Crypto] (book : ReceiptBook) : Prop where
  latest : ∀ receipt ∈ book.latest, receipt.WellFormed
  previous : ∀ receipt ∈ book.previousUntilInstalled, receipt.WellFormed
  fault : ∀ pair ∈ book.fault, pair.1.WellFormed ∧ pair.2.WellFormed
  resolved : ∀ resolved ∈ book.resolvedRepair, resolved.repair.WellFormed ∧
    resolved.selected.WellFormed ∧ resolved.losing.WellFormed
  tenure : book.tenure = book.latest.map Receipt.selection

/-- The book with its document recomputed from its records. -/
def rederived (book : ReceiptBook) : ReceiptBook :=
  { book with document := derivedDocument book.latest book.resolvedRepair }

theorem versionOk (book : ReceiptBook) (adoption : Bool) :
    VersionOk adoption (book.version adoption) := by
  unfold version
  cases adoption <;> cases book.resolvedRepair <;> cases book.historicalFault <;>
    simp [VersionOk]

theorem version_resolved (book : ReceiptBook) (adoption : Bool) :
    (book.version adoption = 4 ∨ book.version adoption = 5) ↔
      book.resolvedRepair.isSome = true := by
  unfold version
  cases adoption <;> cases book.resolvedRepair <;> cases book.historicalFault <;> simp

theorem getTenure_when {tenure : Option TenureSelection}
    (hlen : (putTenure tenure).length < 2 ^ 32) :
    ReadsWhen getTenure (putTenure tenure) (∀ selection ∈ tenure,
      selection.inherited.WellFormed ∧ selection.ownerPublicKey.length = 32) tenure := by
  cases tenure with
  | none => exact .of_reads (getOptional_none _) forall_mem_none
  | some selection =>
    simp only [putTenure, List.length_append, length_framed] at hlen
    rw [forall_mem_some]
    exact getOptional_when (getSelection_when (by omega))

section Reads

variable [Crypto]

theorem getReceipt_when {receipt : Option Receipt}
    (hlen : (putReceipt receipt).length < 2 ^ 32) :
    ReadsWhen getReceipt (putReceipt receipt) (∀ held ∈ receipt, held.WellFormed) receipt := by
  cases receipt with
  | none => exact .of_reads (getOptional_none _) forall_mem_none
  | some held =>
    simp only [putReceipt, List.length_append, length_framed] at hlen
    rw [forall_mem_some]
    exact getOptional_when (Receipt.getNested_when (by omega))

theorem getFault_when {fault : Option (Receipt × Receipt)}
    (hlen : (putFault fault).length < 2 ^ 32) :
    ReadsWhen getFault (putFault fault) (∀ pair ∈ fault,
      pair.1.WellFormed ∧ pair.2.WellFormed) fault := by
  cases fault with
  | none => exact .of_reads (getOptional_none _) forall_mem_none
  | some pair =>
    simp only [putFault, List.length_append, length_framed] at hlen
    rw [forall_mem_some]
    refine getOptional_when ((Receipt.getNested_when (by omega)).bind ?_)
    exact (Receipt.getNested_when (by omega)).map _

theorem getResolved_when (book : ReceiptBook) (adoption : Bool)
    (hlen : (putResolved book.resolvedRepair).length < 2 ^ 32) :
    ReadsWhen (getResolved (book.version adoption)) (putResolved book.resolvedRepair)
      (∀ resolved ∈ book.resolvedRepair, resolved.repair.WellFormed ∧
        resolved.selected.WellFormed ∧ resolved.losing.WellFormed) book.resolvedRepair := by
  have hversion := book.version_resolved adoption
  cases hresolved : book.resolvedRepair with
  | none =>
    rw [getResolved, if_neg (by rw [hversion, hresolved]; simp)]
    exact .of_reads (.pure none) forall_mem_none
  | some resolved =>
    rw [hresolved] at hlen
    rw [getResolved, if_pos (by rw [hversion, hresolved]; rfl), ← bind_pure_comp, forall_mem_some]
    exact (ResolvedRepair.decodeFrom_when hlen).map some

/-- The bytes of a book are accepted exactly when its records are well formed. -/
theorem run_getBook (book : ReceiptBook) {adoption : Bool}
    (hlen : (book.bytes adoption).length ≤ maxReceiptBookBytes)
    {result : (UInt8 × ReceiptBook) × Bytes} :
    (getBook adoption).run (book.bytes adoption) = .ok result ↔
      (∀ selection ∈ book.tenure,
        selection.inherited.WellFormed ∧ selection.ownerPublicKey.length = 32) ∧
      (∀ receipt ∈ book.latest, receipt.WellFormed) ∧
      (∀ receipt ∈ book.previousUntilInstalled, receipt.WellFormed) ∧
      (∀ pair ∈ book.fault, pair.1.WellFormed ∧ pair.2.WellFormed) ∧
      (∀ resolved ∈ book.resolvedRepair, resolved.repair.WellFormed ∧
        resolved.selected.WellFormed ∧ resolved.losing.WellFormed) ∧
      result = ((book.version adoption, book.rederived), []) := by
  simp only [bytes, List.length_append, maxReceiptBookBytes] at hlen
  rw [getBook, bytes, (getU8_putU8 _).orMalformed.run_bind,
    if_neg (not_not.mpr (book.versionOk adoption)), (getTenure_when (by omega)).run_bind,
    (getReceipt_when (by omega)).run_bind, (getReceipt_when (by omega)).run_bind,
    (getFault_when (by omega)).run_bind, (getU64_putU64 _).orMalformed.run_bind,
    ← List.append_nil (putResolved _), (book.getResolved_when adoption (by omega)).run_bind,
    finish_run_bind, ReadsWhen.run_pure]
  rfl

end Reads

section

variable [Crypto] {receipt : Option Receipt} (h : ∀ held ∈ receipt, held.WellFormed)

include h

theorem length_putReceipt_le : (putReceipt receipt).length ≤ 1029 := by
  cases receipt with
  | none => simp [putReceipt]
  | some held =>
    have hlen := (h held rfl).toSelfConsistent.length_encode_le
    unfold maxReceiptBytes at hlen
    simp only [putReceipt, List.length_append, length_putU8, length_framed]
    omega

theorem length_putTenure_le :
    (putTenure (receipt.map Receipt.selection)).length ≤ 163 := by
  cases receipt with
  | none => simp [putTenure]
  | some held =>
    have howner := (h held rfl).ownerPublicKey
    have hinherited := held.inherited.length_encodeInto_le
    simp only [Option.map_some, putTenure, List.length_append, length_putU8, length_putHash,
      length_putU64, length_framed, Receipt.selection]
    omega

theorem getReceipt_reads : Reads getReceipt (putReceipt receipt) receipt :=
  (getReceipt_when (Nat.lt_of_le_of_lt (length_putReceipt_le h) (by decide))).reads h

end

variable {book : ReceiptBook}

/-- A storable book fits the persisted cap. -/
theorem Storable.length_bytes_le [Crypto] (h : book.Storable) (adoption : Bool) :
    (book.bytes adoption).length ≤ maxReceiptBookBytes := by
  have hlatest := length_putReceipt_le h.latest
  have hprevious := length_putReceipt_le h.previous
  have htenure := length_putTenure_le h.latest
  rw [← h.tenure] at htenure
  have hfault : (putFault book.fault).length ≤ 2057 := by
    cases hpair : book.fault with
    | none => simp [putFault]
    | some pair =>
      have ha := (h.fault pair hpair).1.toSelfConsistent.length_encode_le
      have hb := (h.fault pair hpair).2.toSelfConsistent.length_encode_le
      unfold maxReceiptBytes at ha hb
      simp only [putFault, List.length_append, length_putU8, length_framed]
      omega
  have hresolved : (putResolved book.resolvedRepair).length ≤ 3084 := by
    cases hres : book.resolvedRepair with
    | none => simp [putResolved]
    | some resolved =>
      rcases h.resolved resolved hres with ⟨hrepair, hselected, hlosing⟩
      have hr := hrepair.length_encode_le
      have hs := hselected.toSelfConsistent.length_encode_le
      have hl := hlosing.toSelfConsistent.length_encode_le
      unfold maxReceiptBytes at hr hs hl
      simp only [putResolved, ResolvedRepair.encodeInto, List.length_append, length_framed]
      omega
  simp only [bytes, List.length_append, length_putU8, length_putU64, maxReceiptBookBytes]
  omega

/-- What the restore checks establish of a book and its version. -/
structure Rechecked [Crypto] (book : ReceiptBook) (adoption : Bool) : Prop where
  tenure : book.tenure = book.latest.map Receipt.selection
  previous : book.latest = none → book.previousUntilInstalled = none
  fault : ∀ pair ∈ book.fault,
    FaultOk adoption (book.version adoption) book.latest pair.1 pair.2
  others : ∀ receipt ∈ book.others, book.document = some receipt.document
  resolved : ∀ resolved ∈ book.resolvedRepair,
    resolved.verify book.document book.repairSequence = .ok ()

variable {adoption : Bool}

theorem checkRestored_eq_ok [Crypto] :
    book.checkRestored adoption (book.version adoption) = .ok () ↔ book.Rechecked adoption := by
  constructor
  · intro hok
    rcases guard_eq_ok.mp hok with ⟨-, hok⟩
    rcases guard_eq_ok.mp hok with ⟨hprevious, hok⟩
    rcases guard_eq_ok.mp hok with ⟨htenure, hok⟩
    rcases guard_eq_ok.mp hok with ⟨hfault, hok⟩
    rcases guard_eq_ok.mp hok with ⟨-, hok⟩
    rcases guard_eq_ok.mp hok with ⟨hothers, hok⟩
    refine ⟨not_not.mp htenure, ?_, not_not.mp hfault, by simpa using hothers, ?_⟩
    · exact fun hlatest => by_contra fun hne => hprevious ⟨hlatest, hne⟩
    · intro resolved hmem
      rw [Option.mem_def] at hmem
      rw [hmem] at hok
      exact hok
  · intro h
    have hsome : book.tenure.isSome = book.latest.isSome := by rw [h.tenure, Option.isSome_map]
    have hversion : ¬ (adoption = false ∧ book.version adoption ≠ 4 ∧
        decide (book.version adoption = 2) ≠ book.historicalFault) := by
      rintro ⟨rfl, hfour, hne⟩
      apply hne
      cases hresolved : book.resolvedRepair with
      | some resolved => simp [version, hresolved] at hfour
      | none => cases hhistorical : book.historicalFault <;> simp [version, hresolved, hhistorical]
    rw [checkRestored, if_neg (not_not.mpr hsome),
      if_neg (fun hlost => hlost.2 (h.previous hlost.1)),
      if_neg (not_not.mpr h.tenure), if_neg (not_not.mpr h.fault), if_neg hversion, if_neg]
    · cases hresolved : book.resolvedRepair with
      | none => rfl
      | some resolved => exact h.resolved resolved hresolved
    · simpa using h.others

/-- A storable book that passes its restore checks is read back unchanged. -/
theorem Storable.decodeMode_encodeMode [Crypto] (h : book.Storable)
    (hdocument : book.rederived = book) (hcheck : book.Rechecked adoption) :
    ∃ saved, book.encodeMode adoption = .ok saved ∧ decodeMode saved adoption = .ok book := by
  have hlen := h.length_bytes_le adoption
  have htenure : ∀ selection ∈ book.tenure,
      selection.inherited.WellFormed ∧ selection.ownerPublicKey.length = 32 := by
    rw [h.tenure, Option.forall_mem_map]
    exact fun head hhead => ⟨(h.latest head hhead).inherited, (h.latest head hhead).ownerPublicKey⟩
  refine ⟨book.bytes adoption, if_neg (Nat.not_lt.mpr hlen), ?_⟩
  rw [decodeMode, if_neg (Nat.not_lt.mpr hlen), Parser.parse, (book.run_getBook hlen).mpr
    ⟨htenure, h.latest, h.previous, h.fault, h.resolved, rfl⟩, Except.map, ok_bind]
  dsimp only
  rw [hdocument, checkRestored_eq_ok.mpr hcheck]
  rfl

/-! ## Whatever a saved book decodes to -/

theorem wellFormed_of_getNested [Crypto] {receipt : Receipt} {input left : Bytes}
    (h : Accepts (getNested Receipt.decode) input receipt left) : receipt.WellFormed := by
  obtain ⟨_, -, hok⟩ := accepts_getNested.mp h
  exact (Receipt.encode_of_decode hok).2

theorem wellFormed_of_decodeFrom [Crypto] {resolved : ResolvedRepair} {input left : Bytes}
    (h : Accepts ResolvedRepair.decodeFrom input resolved left) : resolved.repair.WellFormed ∧
      resolved.selected.WellFormed ∧ resolved.losing.WellFormed := by
  simp only [ResolvedRepair.decodeFrom, accepts_bind, accepts_pure] at h
  obtain ⟨repair, _, hrepair, selected, _, hselected, losing, _, hlosing, rfl, -⟩ := h
  obtain ⟨_, -, hok⟩ := accepts_getNested.mp hrepair
  exact ⟨(ReceiptRepair.encode_of_decode hok).2, wellFormed_of_getNested hselected,
    wellFormed_of_getNested hlosing⟩

/-- Every record of a parsed book is well formed. -/
theorem wellFormed_of_getBook [Crypto] {input left : Bytes} {version : UInt8}
    (h : Accepts (getBook adoption) input (version, book) left) :
    (∀ receipt ∈ book.latest, receipt.WellFormed) ∧
      (∀ receipt ∈ book.previousUntilInstalled, receipt.WellFormed) ∧
      (∀ pair ∈ book.fault, pair.1.WellFormed ∧ pair.2.WellFormed) ∧
      (∀ resolved ∈ book.resolvedRepair, resolved.repair.WellFormed ∧
        resolved.selected.WellFormed ∧ resolved.losing.WellFormed) ∧
      book.rederived = book := by
  simp only [getBook, accepts_bind, accepts_ite, not_accepts_throw, accepts_pure,
    Prod.mk.injEq] at h
  obtain ⟨_, _, -, ⟨-, -, -, ⟨⟩, -⟩ | ⟨-, tenure, _, -, latest, _, hlatest, previous, _, hprevious,
    fault, _, hfault, _, _, -, resolved, _, hresolved, -, -, -, ⟨-, rfl⟩, -⟩⟩ := h
  refine ⟨?_, ?_, ?_, ?_, rfl⟩
  · intro receipt hmem
    exact wellFormed_of_getNested (accepts_of_getOptional hlatest receipt hmem).choose_spec
  · intro receipt hmem
    exact wellFormed_of_getNested (accepts_of_getOptional hprevious receipt hmem).choose_spec
  · intro pair hmem
    obtain ⟨rest, hpair⟩ := accepts_of_getOptional hfault pair hmem
    simp only [getFaultPair, accepts_bind, accepts_pure] at hpair
    obtain ⟨_, _, ha, _, _, hb, rfl, -⟩ := hpair
    exact ⟨wellFormed_of_getNested ha, wellFormed_of_getNested hb⟩
  · intro found hmem
    rw [getResolved] at hresolved
    split at hresolved
    · obtain ⟨_, hdecode, rfl⟩ := accepts_map.mp hresolved
      cases hmem
      exact wellFormed_of_decodeFrom hdecode
    · cases (accepts_pure.mp hresolved).1
      cases hmem

/-- An accepted book was parsed and passed the restore checks. -/
theorem decodeMode_eq_ok [Crypto] {bytes : Bytes} (hok : decodeMode bytes adoption = .ok book) :
    ∃ version left, (getBook adoption).run bytes = .ok ((version, book), left) ∧
      book.checkRestored adoption version = .ok () := by
  unfold decodeMode at hok
  rcases guard_eq_ok.mp hok with ⟨-, hok⟩
  rcases bind_eq_ok.mp hok with ⟨⟨version, parsed⟩, hparse, hok⟩
  rcases bind_eq_ok.mp hok with ⟨_, hcheck, hok⟩
  cases hok
  obtain ⟨left, hrun⟩ := Parser.run_of_parse hparse
  exact ⟨version, left, hrun, hcheck⟩

/-- What a book the decoder returns satisfies. -/
theorem storable_of_decodeMode [Crypto] {bytes : Bytes}
    (hok : decodeMode bytes adoption = .ok book) : book.Storable ∧ book.rederived = book := by
  obtain ⟨version, left, hrun, hcheck⟩ := decodeMode_eq_ok hok
  rcases guard_eq_ok.mp hcheck with ⟨-, hcheck⟩
  rcases guard_eq_ok.mp hcheck with ⟨-, hcheck⟩
  rcases guard_eq_ok.mp hcheck with ⟨htenure, -⟩
  obtain ⟨hlatest, hprevious, hfault, hresolved, hdocument⟩ := wellFormed_of_getBook hrun
  exact ⟨⟨hlatest, hprevious, hfault, hresolved, not_not.mp htenure⟩, hdocument⟩

/-- Whatever a saved book decodes to has the saved fields and passed the restore checks. -/
theorem eq_of_decodeMode [Crypto] {book restored : ReceiptBook} {saved : Bytes}
    (hsaved : book.encodeMode adoption = .ok saved)
    (hok : decodeMode saved adoption = .ok restored) :
    restored = book.rederived ∧ restored.Rechecked adoption := by
  rw [encodeMode] at hsaved
  rcases guard_eq_ok.mp hsaved with ⟨hlen, hbytes⟩
  cases hbytes
  obtain ⟨version, left, hrun, hcheck⟩ := decodeMode_eq_ok hok
  obtain ⟨-, -, -, -, -, hfields⟩ := (book.run_getBook (Nat.not_lt.mp hlen)).mp hrun
  cases hfields
  exact ⟨rfl, checkRestored_eq_ok.mp hcheck⟩

end ReceiptBook

end Mewtual
