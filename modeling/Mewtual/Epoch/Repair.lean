import Mewtual.Epoch.Receipt

/-!
# Receipt conflicts and signed repairs

Two receipts of one tenure conflict when they close one epoch differently or name
different inherited selections. The owner settles a conflict with a signed repair that
selects one of the two; the resolved repair keeps both full receipts, so that the losing
branch can still be screened after the selected head has advanced.

Main results:

- Theorem {lit}`canonicalReceiptPair_comm`: evidence does not depend on delivery order.
- Theorem {lit}`ReceiptRepair.decode_records_iff`: which receipts and repairs are read back.
- Theorem {lit}`ReceiptRepair.checkEvidence_eq_ok`: what checked evidence establishes.
- Theorem {lit}`ResolvedRepair.not_covers_selected`: a verified repair never covers the
  receipt it selected.
-/

namespace Mewtual

/-! ## Conflicts -/

/-- The part of a receipt that stays fixed during one owner tenure. -/
structure TenureSelection where
  tenureId : Hash32
  tenureStartGroupEpoch : UInt64
  inherited : InheritedCheckpoint
  ownerPublicKey : Bytes
  deriving DecidableEq, Repr

/-- {lit}`TenureSelection::from`. -/
def Receipt.selection (receipt : Receipt) : TenureSelection :=
  ⟨receipt.tenureId, receipt.tenureStartGroupEpoch, receipt.inherited, receipt.ownerPublicKey⟩

/-- Order two receipts by their hashes. -/
def canonicalReceiptPair [Crypto] (a b : Receipt) : Receipt × Receipt :=
  if a.hash < b.hash then (a, b) else (b, a)

/-- Same-epoch alternatives or changed inheritance within one tenure. -/
def ReceiptsConflict [Crypto] (a b : Receipt) : Prop :=
  a.document = b.document ∧ a.tenureId = b.tenureId ∧ a.hash ≠ b.hash ∧
    (a.closedEpoch = b.closedEpoch ∨ a.selection ≠ b.selection)

instance [Crypto] (a b : Receipt) : Decidable (ReceiptsConflict a b) :=
  inferInstanceAs (Decidable (_ ∧ _))

variable {a b : Receipt}

theorem ReceiptsConflict.symm [Crypto] (h : ReceiptsConflict a b) :
    ReceiptsConflict b a :=
  ⟨h.1.symm, h.2.1.symm, h.2.2.1.symm, h.2.2.2.imp Eq.symm Ne.symm⟩

theorem hash_lt_or_gt [Crypto] (hne : a.hash ≠ b.hash) : a.hash < b.hash ∨ b.hash < a.hash := by
  have htoNat : a.hash.toNat ≠ b.hash.toNat := fun h => hne (BitVec.eq_of_toNat_eq h)
  rcases Nat.lt_or_gt_of_ne htoNat with hlt | hgt
  · exact .inl hlt
  · exact .inr hgt

/-- Delivery order does not affect the recorded evidence. -/
theorem canonicalReceiptPair_comm [Crypto] (hne : a.hash ≠ b.hash) :
    canonicalReceiptPair a b = canonicalReceiptPair b a := by
  unfold canonicalReceiptPair
  rcases hash_lt_or_gt hne with hlt | hgt
  · rw [if_pos hlt, if_neg (BitVec.not_lt.mpr (BitVec.le_of_lt hlt))]
  · rw [if_pos hgt, if_neg (BitVec.not_lt.mpr (BitVec.le_of_lt hgt))]

theorem canonicalReceiptPair_cases [Crypto] (a b : Receipt) :
    canonicalReceiptPair a b = (a, b) ∨ canonicalReceiptPair a b = (b, a) := by
  unfold canonicalReceiptPair
  split
  · exact .inl rfl
  · exact .inr rfl

/-- The members of recorded evidence are the two receipts. -/
theorem eq_canonicalReceiptPair [Crypto] {a b held : Receipt} :
    held = (canonicalReceiptPair a b).1 ∨ held = (canonicalReceiptPair a b).2 ↔
      held = a ∨ held = b := by
  rcases canonicalReceiptPair_cases a b with heq | heq
  · rw [heq]
  · rw [heq]
    exact or_comm

/-- Recorded evidence is hash-ordered. -/
theorem canonicalReceiptPair_lt [Crypto] (hne : a.hash ≠ b.hash) :
    (canonicalReceiptPair a b).1.hash < (canonicalReceiptPair a b).2.hash := by
  unfold canonicalReceiptPair
  split <;> rename_i h
  · exact h
  · exact (hash_lt_or_gt hne).resolve_left h

/-- Recorded evidence of a conflict is a conflict. -/
theorem canonicalReceiptPair_conflict [Crypto] (h : ReceiptsConflict a b) :
    ReceiptsConflict (canonicalReceiptPair a b).1 (canonicalReceiptPair a b).2 := by
  rcases canonicalReceiptPair_cases a b with heq | heq
  · rw [heq]
    exact h
  · rw [heq]
    exact h.symm

/-! ## Repairs -/

/-- Owner-signed choice that resolves one visible receipt-equivocation fault. -/
structure ReceiptRepair where
  document : LogicalDocument
  tenureId : Hash32
  issuerTenureStartGroupEpoch : Option UInt64
  receiptHashes : Hash32 × Hash32
  selectedReceiptHash : Hash32
  repairSequence : UInt64
  ownerPublicKey : Bytes
  signature : Signature
  deriving DecidableEq, Repr

namespace ReceiptRepair

/-- The issuer tenure, present in version two only. -/
def putIssuer : Option UInt64 → Bytes
  | some start => putU64 start
  | none => []

/-- A repair with an issuer tenure has version two. -/
def version (repair : ReceiptRepair) : UInt8 :=
  if repair.issuerTenureStartGroupEpoch.isSome then 2 else 1

/-- The bytes of a repair without its signature. -/
def unsignedBytes (repair : ReceiptRepair) : Bytes :=
  putU8 repair.version ++ repair.document.put ++ putHash repair.tenureId
    ++ putIssuer repair.issuerTenureStartGroupEpoch
    ++ putHash repair.receiptHashes.1 ++ putHash repair.receiptHashes.2
    ++ putHash repair.selectedReceiptHash ++ putU64 repair.repairSequence
    ++ framed repair.ownerPublicKey

/-- Canonical wire bytes. -/
def encode (repair : ReceiptRepair) : Bytes := putSigned repair.unsignedBytes repair.signature

/-- What the repairing owner signs. -/
def signatureHash [Crypto] (repair : ReceiptRepair) : Hash32 :=
  hashParts (if repair.issuerTenureStartGroupEpoch.isSome then "catcoms-repair-sig:v2"
    else "catcoms-repair-sig:v1") [repair.unsignedBytes]

/-- Stable repair record hash. -/
def hash [Crypto] (repair : ReceiptRepair) : Hash32 :=
  hashParts (if repair.issuerTenureStartGroupEpoch.isSome then "catcoms-repair:v2"
    else "catcoms-repair:v1") [repair.unsignedBytes, fixedBytes repair.signature]

/-- {lit}`receipt_hashes.contains(&hash)`. -/
def Names (repair : ReceiptRepair) (hash : Hash32) : Prop :=
  repair.receiptHashes.1 = hash ∨ repair.receiptHashes.2 = hash

instance (repair : ReceiptRepair) (hash : Hash32) : Decidable (repair.Names hash) :=
  inferInstanceAs (Decidable (_ ∨ _))

/-- Historical signature and shape check; not current-owner authority. -/
def verifyHistorical [Crypto] (repair : ReceiptRepair) : Except ReplError Unit :=
  if repair.document.serverId = []
      ∨ repair.document.serverId.length > maxServerIdBytes
      ∨ repair.document.logicalKey = []
      ∨ repair.document.logicalKey.length > maxLogicalKeyBytes
      ∨ repair.ownerPublicKey.length ≠ 32
      ∨ repair.encode.length > maxReceiptBytes
      ∨ repair.receiptHashes.1 ≥ repair.receiptHashes.2
      ∨ ¬ repair.Names repair.selectedReceiptHash
      ∨ Crypto.verifyWithPublicBytes repair.ownerPublicKey (fixedBytes repair.signatureHash)
          repair.signature = false then .error .epochAuthority
  else .ok ()

/-- Verify live authority against a tenure observed independently of this record. -/
def verifyCurrentOwner [Crypto] (repair : ReceiptRepair) (group : OwnerAuthority)
    (expectedIssuerTenureStart : UInt64) : Except ReplError Unit :=
  if repair.document.serverId ≠ group.groupId then .error .epochScope
  else
    let owner := Crypto.deviceOfKey repair.ownerPublicKey
    if repair.issuerTenureStartGroupEpoch ≠ some expectedIssuerTenureStart
        ∨ expectedIssuerTenureStart > group.epoch
        ∨ group.designatedCommitter ≠ some owner
        ∨ group.memberSignatureKey owner ≠ some repair.ownerPublicKey then
      .error .epochAuthority
    else repair.verifyHistorical

/-- Version two carries the issuer tenure. -/
def getIssuer (version : UInt8) : Parser (Option UInt64) :=
  if version = 2 then some <$> Decoder.orMalformed getU64 else pure none

/-- Read the unsigned transcript and check it. -/
def getUnsigned (signature : Signature) : Parser ReceiptRepair := do
  let version ← Decoder.orMalformed getU8
  if version ≠ 1 ∧ version ≠ 2 then throw .malformed
  let document ← LogicalDocument.get
  let tenureId ← getFixed 32
  let issuer ← getIssuer version
  let first ← getFixed 32
  let second ← getFixed 32
  let selected ← getFixed 32
  let sequence ← Decoder.orMalformed getU64
  let ownerPublicKey ← Decoder.orMalformed getBytes
  Decoder.orMalformed finish
  if ownerPublicKey.length ≠ 32 ∨ first ≥ second ∨ ¬ (first = selected ∨ second = selected) then
    throw .malformed
  pure ⟨document, tenureId, issuer, (first, second), selected, sequence, ownerPublicKey,
    signature⟩

/-- Strict decoding under the one-KiB pre-parse cap. -/
def decode : Bytes → Except ReplError ReceiptRepair :=
  decodeSigned maxReceiptBytes getUnsigned encode

/-- What the strict decoder checks of a repair. -/
structure WellFormed (repair : ReceiptRepair) : Prop where
  document : repair.document.Bounded
  ownerPublicKey : repair.ownerPublicKey.length = 32
  ordered : repair.receiptHashes.1 < repair.receiptHashes.2
  selected : repair.Names repair.selectedReceiptHash

variable {repair : ReceiptRepair}

theorem WellFormed.length_encode_le (h : repair.WellFormed) :
    repair.encode.length ≤ maxReceiptBytes := by
  have hserver := h.document.serverId_le
  have hkey := h.document.logicalKey_le
  have howner := h.ownerPublicKey
  have hissuer : (putIssuer repair.issuerTenureStartGroupEpoch).length ≤ 8 := by
    cases repair.issuerTenureStartGroupEpoch <;> simp [putIssuer]
  unfold maxServerIdBytes at hserver
  unfold maxLogicalKeyBytes at hkey
  simp only [encode, length_putSigned, unsignedBytes, List.length_append, length_putU8,
    LogicalDocument.length_put, length_putHash, length_putU64, length_framed, maxReceiptBytes]
  omega

theorem getIssuer_put (repair : ReceiptRepair) :
    Reads (getIssuer repair.version) (putIssuer repair.issuerTenureStartGroupEpoch)
      repair.issuerTenureStartGroupEpoch := by
  cases hissuer : repair.issuerTenureStartGroupEpoch <;>
    simp [reads_iff, version, getIssuer, putIssuer, hissuer, Reads.inj_iff getU64_putU64]

/-- The reader evaluates on the bytes of any framable repair. -/
theorem run_getUnsigned (hserver : repair.document.serverId.length < 2 ^ 32)
    (hkey : repair.document.logicalKey.length < 2 ^ 32)
    (howner : repair.ownerPublicKey.length < 2 ^ 32) (result : ReceiptRepair × Bytes) :
    (getUnsigned repair.signature).run repair.unsignedBytes = .ok result ↔
      repair.WellFormed ∧ result = (repair, []) := by
  have hversion : ¬ (repair.version ≠ 1 ∧ repair.version ≠ 2) := by
    unfold version
    cases repair.issuerTenureStartGroupEpoch <;> simp
  simp only [getUnsigned, unsignedBytes, List.append_assoc]
  rw [(getU8_putU8 _).orMalformed.run_bind, if_neg hversion,
    (LogicalDocument.get_when hserver hkey).run_bind, (getFixed_putHash _).run_bind,
    (getIssuer_put repair).run_bind, (getFixed_putHash _).run_bind,
    (getFixed_putHash _).run_bind, (getFixed_putHash _).run_bind,
    (getU64_putU64 _).orMalformed.run_bind, ← List.append_nil (framed _),
    (getBytes_framed howner).orMalformed.run_bind, finish_run_bind, run_guard_eq_ok]
  change _ ∧ ¬ (_ ∨ _ ∨ ¬ repair.Names repair.selectedReceiptHash) ∧ _ ↔ _
  simp only [ne_eq, not_or, not_not, ge_iff_le, BitVec.not_le]
  constructor
  · rintro ⟨hdoc, ⟨hlen, hordered, hselected⟩, hok⟩
    exact ⟨⟨hdoc, hlen, hordered, hselected⟩, (Except.ok.inj hok).symm⟩
  · rintro ⟨h, rfl⟩
    exact ⟨h.document, ⟨h.ownerPublicKey, h.ordered, h.selected⟩, rfl⟩

theorem decode_encode_iff (hlen : repair.encode.length < 2 ^ 32) {result : ReceiptRepair} :
    decode repair.encode = .ok result ↔ repair.WellFormed ∧ result = repair := by
  have hcap : maxReceiptBytes < 2 ^ 32 := by decide
  have hencode : repair.encode = putSigned repair.unsignedBytes repair.signature := rfl
  simp only [encode, length_putSigned, unsignedBytes, List.length_append,
    LogicalDocument.length_put, length_framed] at hlen
  exact decodeSigned_encode_iff hcap hencode
    (run_getUnsigned (by omega) (by omega) (by omega)) WellFormed.length_encode_le

/-- What the decoder accepts is well formed and is the canonical encoding. -/
theorem encode_of_decode {bytes : Bytes} (hok : decode bytes = .ok repair) :
    repair.encode = bytes ∧ repair.WellFormed := by
  rcases encode_of_decodeSigned hok with ⟨rfl, hlen⟩
  exact ⟨rfl, ((decode_encode_iff (Nat.lt_of_le_of_lt hlen (by decide))).mp hok).1⟩

/-- The decoders accept exactly the bytes of well-formed receipts and repairs. -/
theorem decode_records_iff [Crypto] (bytes : Bytes) :
    (∀ receipt, Receipt.decode bytes = .ok receipt ↔ bytes = receipt.encode ∧ receipt.WellFormed) ∧
      ∀ repair, decode bytes = .ok repair ↔ bytes = repair.encode ∧ repair.WellFormed := by
  constructor
  · intro receipt
    refine ⟨fun h => (Receipt.encode_of_decode h).imp_left Eq.symm, ?_⟩
    rintro ⟨rfl, h⟩
    exact Receipt.decode_encode h
  · intro repair
    refine ⟨fun h => (encode_of_decode h).imp_left Eq.symm, ?_⟩
    rintro ⟨rfl, h⟩
    exact (decode_encode_iff (Nat.lt_of_le_of_lt h.length_encode_le (by decide))).mpr ⟨h, rfl⟩

end ReceiptRepair

/-! ## Evidence -/

/-- The checks one evidence receipt passes: bounds, canonical bytes, signature, scope. -/
def checkEvidenceReceipt [Crypto] (document : LogicalDocument) (receipt : Receipt) :
    Except ReplError Unit := do
  if receipt.document.serverId.length > maxServerIdBytes
      ∨ receipt.document.logicalKey.length > maxLogicalKeyBytes
      ∨ receipt.ownerPublicKey.length ≠ 32 then throw .epochBound
  let decoded ← Receipt.decode receipt.encode
  if decoded ≠ receipt then throw .malformed
  receipt.verifySignatureOnly
  if receipt.document ≠ document then throw .epochScope
  pure ()

/-- Canonical, self-signed conflicting receipts, without proving owner authority. -/
def conflictingReceiptPair [Crypto] (document : LogicalDocument) (a b : Receipt) :
    Except ReplError Unit := do
  checkEvidenceReceipt document a
  checkEvidenceReceipt document b
  if ¬ ReceiptsConflict a b then throw .receiptConflict
  pure ()

/-- Two hashes in ascending order. -/
def sortedPair (a b : Hash32) : Hash32 × Hash32 := if a ≤ b then (a, b) else (b, a)

/-- Bind a version-two decision to both complete conflicting receipts. -/
def ReceiptRepair.checkEvidence [Crypto] (repair : ReceiptRepair) (a b : Receipt) :
    Except ReplError Unit := do
  conflictingReceiptPair repair.document a b
  if repair.tenureId ≠ a.tenureId
      ∨ repair.receiptHashes ≠ sortedPair a.hash b.hash
      ∨ ¬ repair.Names repair.selectedReceiptHash
      ∨ repair.issuerTenureStartGroupEpoch = none
      ∨ repair.repairSequence = 0 then throw .receiptConflict
  pure ()

theorem checkEvidenceReceipt_eq_ok [Crypto] {document : LogicalDocument} {receipt : Receipt}
    (hok : checkEvidenceReceipt document receipt = .ok ()) :
    receipt.WellFormed ∧ receipt.verifySignatureOnly = .ok () ∧ receipt.document = document := by
  unfold checkEvidenceReceipt at hok
  rcases guard_eq_ok.mp hok with ⟨-, hok⟩
  rcases bind_eq_ok.mp hok with ⟨decoded, hdecode, hok⟩
  rcases guard_eq_ok.mp hok with ⟨hsame, hok⟩
  rcases bind_eq_ok.mp hok with ⟨_, hsig, hok⟩
  rcases guard_eq_ok.mp hok with ⟨hscope, -⟩
  obtain rfl := not_not.mp hsame
  exact ⟨(Receipt.encode_of_decode hdecode).2, hsig, not_not.mp hscope⟩

/-- What checked evidence establishes about the repair and its two receipts. -/
structure EvidencePair [Crypto] (repair : ReceiptRepair) (a b : Receipt) : Prop where
  left : a.WellFormed
  right : b.WellFormed
  leftDocument : a.document = repair.document
  rightDocument : b.document = repair.document
  conflict : ReceiptsConflict a b
  tenure : repair.tenureId = a.tenureId
  hashes : repair.receiptHashes = sortedPair a.hash b.hash
  selected : repair.Names repair.selectedReceiptHash
  issuer : repair.issuerTenureStartGroupEpoch ≠ none
  sequence : repair.repairSequence ≠ 0

theorem ReceiptRepair.checkEvidence_eq_ok [Crypto] {repair : ReceiptRepair}
    (hok : repair.checkEvidence a b = .ok ()) : EvidencePair repair a b := by
  unfold checkEvidence conflictingReceiptPair at hok
  rcases bind_eq_ok.mp hok with ⟨_, hpair, hok⟩
  rcases guard_eq_ok.mp hok with ⟨hbound, -⟩
  rcases bind_eq_ok.mp hpair with ⟨_, hleft, hpair⟩
  rcases bind_eq_ok.mp hpair with ⟨_, hright, hpair⟩
  rcases guard_eq_ok.mp hpair with ⟨hconflict, -⟩
  rcases checkEvidenceReceipt_eq_ok hleft with ⟨hwfLeft, -, hdocLeft⟩
  rcases checkEvidenceReceipt_eq_ok hright with ⟨hwfRight, -, hdocRight⟩
  simp only [not_or, ne_eq, not_not] at hbound hconflict
  exact ⟨hwfLeft, hwfRight, hdocLeft, hdocRight, hconflict, hbound.1, hbound.2.1, hbound.2.2.1,
    hbound.2.2.2.1, hbound.2.2.2.2⟩

/-! ## Resolved repairs -/

/-- A repair with the full receipts it decided between. -/
structure ResolvedRepair where
  repair : ReceiptRepair
  selected : Receipt
  losing : Receipt
  deriving DecidableEq, Repr

namespace ResolvedRepair

/-- The exact loser, or a receipt on the losing baseline when the baselines differ. -/
def Covers [Crypto] (resolved : ResolvedRepair) (receipt : Receipt) : Prop :=
  receipt.document = resolved.repair.document ∧ receipt.tenureId = resolved.repair.tenureId ∧
    (receipt.hash = resolved.losing.hash ∨
      (resolved.selected.selection ≠ resolved.losing.selection ∧
        receipt.selection = resolved.losing.selection))

instance [Crypto] (resolved : ResolvedRepair) (receipt : Receipt) :
    Decidable (resolved.Covers receipt) :=
  inferInstanceAs (Decidable (_ ∧ _))

/-- The bytes of an applied repair. -/
def encodeInto (resolved : ResolvedRepair) : Bytes :=
  framed resolved.repair.encode ++ framed resolved.selected.encode
    ++ framed resolved.losing.encode

/-- Read an applied repair. -/
def decodeFrom [Crypto] : Parser ResolvedRepair := do
  let repair ← getNested ReceiptRepair.decode
  let selected ← getNested Receipt.decode
  let losing ← getNested Receipt.decode
  pure ⟨repair, selected, losing⟩

/-- The historical check a restored disposition passes. -/
def verify [Crypto] (resolved : ResolvedRepair) (document : Option LogicalDocument)
    (sequence : UInt64) : Except ReplError Unit := do
  resolved.repair.verifyHistorical
  resolved.repair.checkEvidence resolved.selected resolved.losing
  if document ≠ some resolved.repair.document
      ∨ resolved.repair.selectedReceiptHash ≠ resolved.selected.hash
      ∨ sequence ≠ resolved.repair.repairSequence ∨ sequence = 0 then throw .receiptConflict
  pure ()

variable {resolved : ResolvedRepair}

theorem verify_eq_ok [Crypto] {document : Option LogicalDocument} {sequence : UInt64}
    (hok : resolved.verify document sequence = .ok ()) :
    resolved.repair.verifyHistorical = .ok () ∧
      EvidencePair resolved.repair resolved.selected resolved.losing ∧
      document = some resolved.repair.document ∧
      resolved.repair.selectedReceiptHash = resolved.selected.hash ∧
      sequence = resolved.repair.repairSequence := by
  unfold verify at hok
  rcases bind_eq_ok.mp hok with ⟨_, hhistorical, hok⟩
  rcases bind_eq_ok.mp hok with ⟨_, hevidence, hok⟩
  rcases guard_eq_ok.mp hok with ⟨hbound, -⟩
  simp only [not_or, ne_eq, not_not] at hbound
  exact ⟨hhistorical, ReceiptRepair.checkEvidence_eq_ok hevidence, hbound.1, hbound.2.1,
    hbound.2.2.1⟩

/-- A verified repair of well-formed evidence is itself well formed. -/
theorem wellFormed_of_historical [Crypto] {repair : ReceiptRepair} {a b : Receipt}
    (hhistorical : repair.verifyHistorical = .ok ()) (hevidence : EvidencePair repair a b) :
    repair.WellFormed := by
  unfold ReceiptRepair.verifyHistorical at hhistorical
  rcases guard_eq_ok.mp hhistorical with ⟨hshape, -⟩
  simp only [not_or, ne_eq, not_not] at hshape
  refine ⟨?_, hshape.2.2.2.2.1, ?_, hevidence.selected⟩
  · rw [← hevidence.leftDocument]
    exact hevidence.left.document
  · exact BitVec.not_le.mp hshape.2.2.2.2.2.2.1

/-- The selected receipt of conflicting evidence is never covered. -/
theorem not_covers_selected [Crypto]
    (hconflict : ReceiptsConflict resolved.selected resolved.losing) :
    ¬ resolved.Covers resolved.selected := by
  rintro ⟨-, -, hhash | ⟨hne, heq⟩⟩
  · exact hconflict.2.2.1 hhash
  · exact hne heq

/-- Pair the repair with its evidence, the selected receipt first. -/
def between [Crypto] (repair : ReceiptRepair) (a b : Receipt) : ResolvedRepair :=
  if a.hash = repair.selectedReceiptHash then ⟨repair, a, b⟩ else ⟨repair, b, a⟩

theorem between_cases [Crypto] (repair : ReceiptRepair) (a b : Receipt) :
    between repair a b = ⟨repair, a, b⟩ ∨ between repair a b = ⟨repair, b, a⟩ := by
  unfold between
  split
  · exact .inl rfl
  · exact .inr rfl

/-- A framed resolved repair is accepted exactly when its three records are well formed. -/
theorem decodeFrom_when [Crypto] (hlen : resolved.encodeInto.length < 2 ^ 32) :
    ReadsWhen decodeFrom resolved.encodeInto (resolved.repair.WellFormed ∧
      resolved.selected.WellFormed ∧ resolved.losing.WellFormed) resolved := by
  simp only [encodeInto, List.length_append, length_framed] at hlen
  rw [encodeInto, List.append_assoc]
  refine (getNested_when (by omega) fun _ => ReceiptRepair.decode_encode_iff (by omega)).bind ?_
  refine (Receipt.getNested_when (by omega)).bind ?_
  exact (Receipt.getNested_when (by omega)).map _

/-- A resolved repair over well-formed records is read back. -/
theorem decodeFrom_encodeInto [Crypto] (hrepair : resolved.repair.WellFormed)
    (hselected : resolved.selected.WellFormed) (hlosing : resolved.losing.WellFormed) :
    Reads decodeFrom resolved.encodeInto resolved := by
  have hr := hrepair.length_encode_le
  have hs := hselected.toSelfConsistent.length_encode_le
  have hl := hlosing.toSelfConsistent.length_encode_le
  unfold maxReceiptBytes at hr hs hl
  refine (decodeFrom_when ?_).reads ⟨hrepair, hselected, hlosing⟩
  simp only [encodeInto, List.length_append, length_framed]
  omega

end ResolvedRepair

/-- The current owner's choice between two receipts. -/
def plainRepair (owner : UInt8) (issuer : UInt64) (selected losing : Receipt)
    (sequence : UInt64) : ReceiptRepair where
  document := selected.document
  tenureId := selected.tenureId
  issuerTenureStartGroupEpoch := some issuer
  receiptHashes := sortedPair (@Receipt.hash plainCrypto selected)
    (@Receipt.hash plainCrypto losing)
  selectedReceiptHash := @Receipt.hash plainCrypto selected
  repairSequence := sequence
  ownerPublicKey := plainKey owner
  signature := 0

end Mewtual
