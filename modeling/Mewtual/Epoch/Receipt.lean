import Mewtual.Epoch.SignedRecord

/-!
# Owner-signed receipts

A receipt finalizes one close and names the checkpoint that succeeds it. This
module models its canonical bytes, its identity hash, its strict decoder and the
two verification levels: self-consistency with the named key's signature, and
current-owner authority under an expected tenure start.

Main results:

- Theorem {lit}`Receipt.decode_encode_iff`: the decoder accepts the encoding of a
  receipt exactly when the receipt is well formed, and then returns it.
- Theorem {lit}`Receipt.hash_inj`: collision freedom makes the receipt hash an identity.
- Theorem {lit}`Receipt.tenureId_inj`: collision freedom makes a tenure identifier
  determine the owner key and the tenure start.
-/

namespace Mewtual

/-! ## Inherited checkpoints -/

/-- Checkpoint selected when an owner tenure first receipts a logical document. -/
inductive InheritedCheckpoint where
  | epochZero
  | checkpoint (epoch : UInt64) (closeRecordHash seedChangeHash : Hash32)
  deriving DecidableEq, Repr

namespace InheritedCheckpoint

/-- Epoch number selected by the checkpoint, zero for epoch zero. -/
def epoch : InheritedCheckpoint → UInt64
  | .epochZero => 0
  | .checkpoint epoch _ _ => epoch

/-- Close hash selected by the checkpoint. -/
def close : InheritedCheckpoint → Option Hash32
  | .epochZero => none
  | .checkpoint _ close _ => some close

/-- Seed change selected by the checkpoint. -/
def seed : InheritedCheckpoint → Option Hash32
  | .epochZero => none
  | .checkpoint _ _ seed => some seed

/-- The bytes of an inherited checkpoint. -/
def encodeInto (inherited : InheritedCheckpoint) : Bytes :=
  putU64 inherited.epoch ++ putOptionalHash inherited.close ++ putOptionalHash inherited.seed

/-- Read an inherited checkpoint. -/
def decodeFrom : Parser InheritedCheckpoint := do
  let epoch ← Decoder.orMalformed getU64
  let close ← getOptionalHash
  let seed ← getOptionalHash
  match close, seed with
  | none, none => if epoch = 0 then pure .epochZero else throw .malformed
  | some close, some seed =>
    if epoch > 0 then pure (.checkpoint epoch close seed) else throw .malformed
  | _, _ => throw .malformed

/-- A checkpoint other than epoch zero has a positive epoch. -/
def WellFormed (inherited : InheritedCheckpoint) : Prop :=
  inherited = .epochZero ∨ 0 < inherited.epoch

instance (inherited : InheritedCheckpoint) : Decidable inherited.WellFormed :=
  inferInstanceAs (Decidable (_ ∨ _))

/-- An encoded checkpoint is accepted exactly when its epoch is. -/
theorem decodeFrom_when (inherited : InheritedCheckpoint) :
    ReadsWhen decodeFrom inherited.encodeInto inherited.WellFormed inherited := by
  cases inherited <;>
    simp [readsWhen_iff, decodeFrom, encodeInto, (getOptionalHash_put _).accepts, epoch, close,
      seed, WellFormed]

theorem encodeInto_append_inj {left right : InheritedCheckpoint} {restLeft restRight : Bytes} :
    left.encodeInto ++ restLeft = right.encodeInto ++ restRight ↔
      left = right ∧ restLeft = restRight := by
  cases left <;> cases right <;> simp [encodeInto, epoch, close, seed, and_assoc]

theorem length_encodeInto_le (inherited : InheritedCheckpoint) :
    inherited.encodeInto.length ≤ 82 := by
  cases inherited <;>
    simp [encodeInto, close, seed, putOptionalHash]

end InheritedCheckpoint

/-! ## The record and its bytes -/

/-- Owner-signed finality record for one close and its deterministic checkpoint. -/
structure Receipt where
  document : LogicalDocument
  closedEpoch : UInt64
  closeRecordHash : Hash32
  seedChangeHash : Hash32
  tenureStartGroupEpoch : UInt64
  tenureId : Hash32
  inherited : InheritedCheckpoint
  ownerPublicKey : Bytes
  signature : Signature
  deriving DecidableEq, Repr

/-- The facts a verified receipt carries into settlement. -/
structure VerifiedReceipt where
  document : LogicalDocument
  closedEpoch : UInt64
  closeRecordHash : Hash32
  receiptHash : Hash32
  seedChangeHash : Hash32
  deriving DecidableEq, Repr

namespace Receipt

/-- The bytes of a receipt without its signature. -/
def unsignedBytes (receipt : Receipt) : Bytes :=
  putU8 1 ++ receipt.document.put ++ putU64 receipt.closedEpoch
    ++ putHash receipt.closeRecordHash ++ putHash receipt.seedChangeHash
    ++ putU64 receipt.tenureStartGroupEpoch ++ putHash receipt.tenureId
    ++ receipt.inherited.encodeInto ++ framed receipt.ownerPublicKey

/-- Canonical receipt bytes. -/
def encode (receipt : Receipt) : Bytes := putSigned receipt.unsignedBytes receipt.signature

/-- What the owner signs. -/
def signatureHash [Crypto] (receipt : Receipt) : Hash32 :=
  hashParts "catcoms-receipt-sig:v1" [receipt.unsignedBytes]

/-- The parts the receipt hash is taken over. -/
def hashedParts (receipt : Receipt) : List Bytes :=
  [receipt.unsignedBytes, fixedBytes receipt.signature]

/-- Stable receipt identity. -/
def hash [Crypto] (receipt : Receipt) : Hash32 :=
  hashParts "catcoms-receipt:v1" receipt.hashedParts

/-! ## Verification -/

/-- Self-consistency and the named key's signature, without any claim of membership. -/
def verifySignatureOnly [Crypto] (receipt : Receipt) : Except ReplError Unit :=
  if receipt.document.serverId.length > maxServerIdBytes
      ∨ receipt.document.logicalKey.length > maxLogicalKeyBytes
      ∨ receipt.ownerPublicKey.length ≠ 32 then .error .epochBound
  else if receipt.tenureId ≠ Mewtual.tenureId receipt.document.serverId receipt.ownerPublicKey
          receipt.tenureStartGroupEpoch
      ∨ receipt.closedEpoch = u64Max
      ∨ receipt.inherited.epoch > receipt.closedEpoch
      ∨ Crypto.verifyWithPublicBytes receipt.ownerPublicKey (fixedBytes receipt.signatureHash)
          receipt.signature = false then .error .epochAuthority
  else .ok ()

/-- Recreate a previously verified capability from authenticated local state. -/
def restoreVerifiedFromVault [Crypto] (receipt : Receipt) : Except ReplError VerifiedReceipt := do
  receipt.verifySignatureOnly
  pure ⟨receipt.document, receipt.closedEpoch, receipt.closeRecordHash, receipt.hash,
    receipt.seedChangeHash⟩

/-- Verify scope, tenure derivation, current-owner authority, and signature. -/
def verifyCurrentOwner [Crypto] (receipt : Receipt) (group : OwnerAuthority)
    (expectedTenureStart : UInt64) : Except ReplError VerifiedReceipt :=
  if receipt.document.serverId ≠ group.groupId then .error .epochScope
  else
    let owner := Crypto.deviceOfKey receipt.ownerPublicKey
    if group.designatedCommitter ≠ some owner
        ∨ group.memberSignatureKey owner ≠ some receipt.ownerPublicKey
        ∨ receipt.tenureStartGroupEpoch ≠ expectedTenureStart
        ∨ receipt.tenureStartGroupEpoch > group.epoch then .error .epochAuthority
    else receipt.restoreVerifiedFromVault

/-! ## The strict decoder -/

/-- Read the unsigned transcript and check it. -/
def getUnsigned [Crypto] (signature : Signature) : Parser Receipt := do
  let version ← Decoder.orMalformed getU8
  if version ≠ 1 then throw .malformed
  let document ← LogicalDocument.get
  let closedEpoch ← Decoder.orMalformed getU64
  let closeRecordHash ← getFixed 32
  let seedChangeHash ← getFixed 32
  let tenureStart ← Decoder.orMalformed getU64
  let encodedTenure ← getFixed 32
  let inherited ← InheritedCheckpoint.decodeFrom
  let ownerPublicKey ← Decoder.orMalformed getBytes
  Decoder.orMalformed finish
  if ownerPublicKey.length ≠ 32
      ∨ encodedTenure ≠ Mewtual.tenureId document.serverId ownerPublicKey tenureStart then
    throw .malformed
  if closedEpoch = u64Max ∨ inherited.epoch > closedEpoch then throw .malformed
  pure ⟨document, closedEpoch, closeRecordHash, seedChangeHash, tenureStart, encodedTenure,
    inherited, ownerPublicKey, signature⟩

/-- Strict receipt decoding with the one-KiB pre-parse cap. -/
def decode [Crypto] : Bytes → Except ReplError Receipt :=
  decodeSigned maxReceiptBytes getUnsigned encode

/-- The variable-length fields fit a length prefix. -/
structure Framable (receipt : Receipt) : Prop where
  serverId : receipt.document.serverId.length < 2 ^ 32
  logicalKey : receipt.document.logicalKey.length < 2 ^ 32
  ownerPublicKey : receipt.ownerPublicKey.length < 2 ^ 32

/-- What every verification level establishes about the receipt itself. -/
structure SelfConsistent [Crypto] (receipt : Receipt) : Prop where
  serverId : receipt.document.serverId.length ≤ maxServerIdBytes
  logicalKey : receipt.document.logicalKey.length ≤ maxLogicalKeyBytes
  ownerPublicKey : receipt.ownerPublicKey.length = 32
  tenureId : receipt.tenureId = Mewtual.tenureId receipt.document.serverId
    receipt.ownerPublicKey receipt.tenureStartGroupEpoch
  closedEpoch : receipt.closedEpoch ≠ u64Max
  inheritedEpoch : receipt.inherited.epoch ≤ receipt.closedEpoch

/-- What the strict decoder checks of a receipt. -/
structure WellFormed [Crypto] (receipt : Receipt) : Prop extends SelfConsistent receipt where
  document : receipt.document.Bounded
  inherited : receipt.inherited.WellFormed

theorem length_unsignedBytes_le (receipt : Receipt) :
    receipt.unsignedBytes.length ≤ 221 + receipt.document.serverId.length
      + receipt.document.logicalKey.length + receipt.ownerPublicKey.length := by
  have hinherited := receipt.inherited.length_encodeInto_le
  simp only [unsignedBytes, List.length_append, length_putU8, LogicalDocument.length_put,
    length_putU64, length_putHash, length_framed]
  omega

/-- A receipt whose bytes fit a length prefix has framable fields. -/
theorem framable_of_length_encode_lt {receipt : Receipt}
    (hlen : receipt.encode.length < 2 ^ 32) : receipt.Framable := by
  rw [encode, length_putSigned] at hlen
  simp only [unsignedBytes, List.length_append, LogicalDocument.length_put,
    length_framed] at hlen
  exact ⟨by omega, by omega, by omega⟩

section Codec

variable [Crypto] {receipt : Receipt}

namespace SelfConsistent

section

variable (h : receipt.SelfConsistent)

include h

theorem length_unsignedBytes_le :
    receipt.unsignedBytes.length ≤ 701 := by
  have hserver := h.serverId
  have hkey := h.logicalKey
  have howner := h.ownerPublicKey
  have hlen := receipt.length_unsignedBytes_le
  unfold maxServerIdBytes at hserver
  unfold maxLogicalKeyBytes at hkey
  omega

theorem length_encode_le :
    receipt.encode.length ≤ maxReceiptBytes := by
  have hlen := h.length_unsignedBytes_le
  rw [encode, length_putSigned, maxReceiptBytes]
  omega

theorem length_encode_lt : receipt.encode.length < 2 ^ 32 :=
  Nat.lt_of_le_of_lt h.length_encode_le (by decide)

theorem framable : receipt.Framable :=
  framable_of_length_encode_lt h.length_encode_lt

end

end SelfConsistent

/-- The reader evaluates on the bytes of any framable receipt. -/
theorem run_getUnsigned (hf : receipt.Framable) (result : Receipt × Bytes) :
    (getUnsigned receipt.signature).run receipt.unsignedBytes = .ok result ↔
      receipt.WellFormed ∧ result = (receipt, []) := by
  simp only [getUnsigned, unsignedBytes, List.append_assoc]
  rw [(getU8_putU8 1).orMalformed.run_bind, if_neg (by decide),
    (LogicalDocument.get_when hf.serverId hf.logicalKey).run_bind,
    (getU64_putU64 _).orMalformed.run_bind, (getFixed_putHash _).run_bind,
    (getFixed_putHash _).run_bind, (getU64_putU64 _).orMalformed.run_bind,
    (getFixed_putHash _).run_bind, receipt.inherited.decodeFrom_when.run_bind,
    ← List.append_nil (framed _), (getBytes_framed hf.ownerPublicKey).orMalformed.run_bind,
    finish_run_bind, run_guard_eq_ok, run_guard_eq_ok]
  simp only [ne_eq, not_or, not_not, UInt64.not_lt, gt_iff_lt]
  constructor
  · rintro ⟨hdoc, hinh, htenure, hepochs, hok⟩
    exact ⟨⟨⟨hdoc.serverId_le, hdoc.logicalKey_le, htenure.1, htenure.2, hepochs.1, hepochs.2⟩,
      hdoc, hinh⟩, (Except.ok.inj hok).symm⟩
  · rintro ⟨h, rfl⟩
    exact ⟨h.document, h.inherited, ⟨h.ownerPublicKey, h.tenureId⟩,
      ⟨h.closedEpoch, h.inheritedEpoch⟩, rfl⟩

/-- The strict decoder accepts the bytes of a receipt exactly when the receipt is well
formed, and then returns that receipt. -/
theorem decode_encode_iff (hf : receipt.Framable) {result : Receipt} :
    decode receipt.encode = .ok result ↔ receipt.WellFormed ∧ result = receipt := by
  have hcap : maxReceiptBytes < 2 ^ 32 := by decide
  have hencode : receipt.encode = putSigned receipt.unsignedBytes receipt.signature := rfl
  exact decodeSigned_encode_iff hcap hencode (run_getUnsigned hf)
    fun h => h.toSelfConsistent.length_encode_le

theorem decode_encode (h : receipt.WellFormed) :
    decode receipt.encode = .ok receipt :=
  (decode_encode_iff h.toSelfConsistent.framable).mpr ⟨h, rfl⟩

/-- What the decoder accepts is well formed and is the canonical encoding. -/
theorem encode_of_decode {bytes : Bytes} (hok : decode bytes = .ok receipt) :
    receipt.encode = bytes ∧ receipt.WellFormed := by
  rcases encode_of_decodeSigned hok with ⟨rfl, hlen⟩
  have hf := framable_of_length_encode_lt (Nat.lt_of_le_of_lt hlen (by decide))
  exact ⟨rfl, ((decode_encode_iff hf).mp hok).1⟩

/-- A framed receipt is accepted exactly when it is well formed. -/
theorem getNested_when (hlen : receipt.encode.length < 2 ^ 32) :
    ReadsWhen (getNested decode) (framed receipt.encode) receipt.WellFormed receipt :=
  Mewtual.getNested_when hlen fun _ => decode_encode_iff (framable_of_length_encode_lt hlen)

/-! ## Identity -/

omit [Crypto] in
theorem unsignedBytes_injective {left right : Receipt}
    (hleft : left.Framable) (hright : right.Framable)
    (heq : left.unsignedBytes = right.unsignedBytes) (hsig : left.signature = right.signature) :
    left = right := by
  cases left
  cases right
  cases hsig
  simpa [unsignedBytes, LogicalDocument.put_append_inj hleft.serverId hleft.logicalKey
    hright.serverId hright.logicalKey, InheritedCheckpoint.encodeInto_append_inj,
    framed_inj hleft.ownerPublicKey hright.ownerPublicKey] using heq

theorem verifySignatureOnly_selfConsistent (hok : receipt.verifySignatureOnly = .ok ()) :
    receipt.SelfConsistent := by
  unfold verifySignatureOnly at hok
  obtain ⟨hbound, hok⟩ := guard_eq_ok.mp hok
  obtain ⟨hauthority, -⟩ := guard_eq_ok.mp hok
  simp only [not_or, ne_eq, not_not, Nat.not_lt, UInt64.not_lt, gt_iff_lt] at hbound hauthority
  exact ⟨hbound.1, hbound.2.1, hbound.2.2, hauthority.1, hauthority.2.1, hauthority.2.2.1⟩

variable {verified : VerifiedReceipt}

/-- What current-owner verification establishes. -/
theorem verifyCurrentOwner_eq_ok {group : OwnerAuthority} {expectedTenureStart : UInt64}
    (hok : receipt.verifyCurrentOwner group expectedTenureStart = .ok verified) :
    receipt.document.serverId = group.groupId ∧
      group.designatedCommitter = some (Crypto.deviceOfKey receipt.ownerPublicKey) ∧
      group.memberSignatureKey (Crypto.deviceOfKey receipt.ownerPublicKey)
        = some receipt.ownerPublicKey ∧ receipt.tenureStartGroupEpoch = expectedTenureStart ∧
      receipt.verifySignatureOnly = .ok () := by
  unfold verifyCurrentOwner at hok
  obtain ⟨hscope, hok⟩ := guard_eq_ok.mp hok
  obtain ⟨howner, hok⟩ := guard_eq_ok.mp hok
  obtain ⟨_, hsig, -⟩ := bind_eq_ok.mp hok
  simp only [not_or, ne_eq, not_not] at hscope howner
  exact ⟨hscope, howner.1, howner.2.1, howner.2.2.1, hsig⟩

/-- The capability a verification returns repeats the receipt's own facts. -/
theorem verified_eq {group : OwnerAuthority} {expectedTenureStart : UInt64}
    (hok : receipt.verifyCurrentOwner group expectedTenureStart = .ok verified) :
    verified = ⟨receipt.document, receipt.closedEpoch, receipt.closeRecordHash, receipt.hash,
      receipt.seedChangeHash⟩ := by
  unfold verifyCurrentOwner at hok
  rcases guard_eq_ok.mp hok with ⟨-, hok⟩
  rcases guard_eq_ok.mp hok with ⟨-, hok⟩
  rcases bind_eq_ok.mp hok with ⟨_, -, hok⟩
  exact (Except.ok.inj hok).symm

theorem restored_signature (hok : receipt.restoreVerifiedFromVault = .ok verified) :
    receipt.verifySignatureOnly = .ok () := by
  rcases bind_eq_ok.mp hok with ⟨⟨⟩, hsignature, -⟩
  exact hsignature

/-- Restoring a capability fails only with the signature. -/
theorem discard_restore :
    (discard receipt.restoreVerifiedFromVault : Except ReplError PUnit) = .ok () ↔
      receipt.verifySignatureOnly = .ok () := by
  rw [restoreVerifiedFromVault]
  cases receipt.verifySignatureOnly with
  | error error => exact ⟨nofun, nofun⟩
  | ok value => exact ⟨fun _ => rfl, fun _ => rfl⟩

end Codec

/-- The transcripts hashed to identify a receipt and its tenure. -/
def preimages (receipt : Receipt) : List Bytes :=
  [transcript "catcoms-receipt:v1" receipt.hashedParts,
    transcript "catcoms-tenure:v1" (tenureParts receipt.document.serverId
      receipt.ownerPublicKey receipt.tenureStartGroupEpoch)]

theorem receipt_mem_preimages (receipt : Receipt) :
    transcript "catcoms-receipt:v1" receipt.hashedParts ∈ receipt.preimages :=
  List.mem_cons_self

theorem tenure_mem_preimages (receipt : Receipt) :
    transcript "catcoms-tenure:v1" (tenureParts receipt.document.serverId
      receipt.ownerPublicKey receipt.tenureStartGroupEpoch) ∈ receipt.preimages :=
  List.mem_cons_of_mem _ List.mem_cons_self

/-- The transcripts hashed for a whole set of receipts. -/
def allPreimages (receipts : Set Receipt) : Set Bytes :=
  {bytes | ∃ receipt ∈ receipts, bytes ∈ receipt.preimages}

/-- No two transcripts of the given receipts collide. -/
def CollisionFree [Crypto] (receipts : Set Receipt) : Prop :=
  CollisionFreeOn (allPreimages receipts)

theorem CollisionFree.mono [Crypto] {small large : Set Receipt} (hsub : small ⊆ large)
    (h : CollisionFree large) : CollisionFree small := by
  refine Set.InjOn.mono ?_ h
  rintro bytes ⟨receipt, hmem, hbytes⟩
  exact ⟨receipt, hsub hmem, hbytes⟩

/-- Collision freedom of finitely many receipts is checked on their transcripts. -/
theorem collisionFree_of_list [Crypto] {receipts : List Receipt}
    (h : ∀ left ∈ receipts.flatMap preimages, ∀ right ∈ receipts.flatMap preimages,
      Crypto.sha256 left = Crypto.sha256 right → left = right) :
    CollisionFree {receipt | receipt ∈ receipts} := by
  rintro left ⟨first, hfirst, hleft⟩ right ⟨second, hsecond, hright⟩ heq
  exact h left (List.mem_flatMap.mpr ⟨first, hfirst, hleft⟩) right
    (List.mem_flatMap.mpr ⟨second, hsecond, hright⟩) heq

theorem SelfConsistent.hashedParts_lt [Crypto] {receipt : Receipt}
    (h : receipt.SelfConsistent) : ∀ part ∈ receipt.hashedParts, part.length < 2 ^ 32 := by
  intro part hmem
  simp only [hashedParts, List.mem_cons, List.not_mem_nil, or_false] at hmem
  rcases hmem with rfl | rfl
  · exact Nat.lt_of_le_of_lt h.length_unsignedBytes_le (by decide)
  · rw [length_fixedBytes]
    decide

theorem SelfConsistent.tenureParts_lt [Crypto] {receipt : Receipt}
    (h : receipt.SelfConsistent) :
    ∀ part ∈ tenureParts receipt.document.serverId receipt.ownerPublicKey
      receipt.tenureStartGroupEpoch, part.length < 2 ^ 32 := by
  intro part hmem
  simp only [tenureParts, List.mem_cons, List.not_mem_nil, or_false] at hmem
  rcases hmem with rfl | rfl | rfl
  · exact h.framable.serverId
  · exact h.framable.ownerPublicKey
  · rw [length_putU64]
    decide

/-- Collision freedom makes the receipt hash an identity. -/
theorem hash_inj [Crypto] {receipts : Set Receipt} (hfree : CollisionFree receipts)
    {left right : Receipt} (hleft : left ∈ receipts) (hright : right ∈ receipts)
    (hl : left.SelfConsistent) (hr : right.SelfConsistent)
    (heq : left.hash = right.hash) : left = right := by
  have hdomain : (asciiBytes "catcoms-receipt:v1").length < 2 ^ 32 := by decide
  have hlen : left.hashedParts.length = right.hashedParts.length := rfl
  have hparts : left.hashedParts = right.hashedParts :=
    hashParts_inj hfree hdomain hlen hl.hashedParts_lt hr.hashedParts_lt
      ⟨left, hleft, left.receipt_mem_preimages⟩ ⟨right, hright, right.receipt_mem_preimages⟩ heq
  simp only [hashedParts, List.cons.injEq, and_true] at hparts
  exact unsignedBytes_injective hl.framable hr.framable hparts.1
    (fixedBytes_injective hparts.2)

/-- Collision freedom makes a tenure identifier determine its owner key and its start. -/
theorem tenureId_inj [Crypto] {receipts : Set Receipt} (hfree : CollisionFree receipts)
    {left right : Receipt} (hleft : left ∈ receipts) (hright : right ∈ receipts)
    (hl : left.SelfConsistent) (hr : right.SelfConsistent)
    (heq : left.tenureId = right.tenureId) :
    left.ownerPublicKey = right.ownerPublicKey ∧
      left.tenureStartGroupEpoch = right.tenureStartGroupEpoch := by
  rw [hl.tenureId, hr.tenureId] at heq
  have hdomain : (asciiBytes "catcoms-tenure:v1").length < 2 ^ 32 := by decide
  have hlen : (tenureParts left.document.serverId left.ownerPublicKey
      left.tenureStartGroupEpoch).length = (tenureParts right.document.serverId
        right.ownerPublicKey right.tenureStartGroupEpoch).length := rfl
  have hparts := hashParts_inj hfree hdomain hlen hl.tenureParts_lt hr.tenureParts_lt
    ⟨left, hleft, left.tenure_mem_preimages⟩ ⟨right, hright, right.tenure_mem_preimages⟩ heq
  simp only [tenureParts, List.cons.injEq, and_true] at hparts
  obtain ⟨-, howner, hstart⟩ := hparts
  refine ⟨howner, ?_⟩
  rw [← List.append_nil (putU64 left.tenureStartGroupEpoch),
    ← List.append_nil (putU64 right.tenureStartGroupEpoch)] at hstart
  exact ((getU64_putU64 _).append_inj (getU64_putU64 _) hstart).1

end Receipt

/-! ## Concrete records -/

/-- A transparent instance of the parameters, on which the model can be run: the last bytes
of a transcript stand for its hash, and every signature is accepted. -/
@[reducible] def plainCrypto : Crypto where
  sha256 bytes := BitVec.ofNat 256 (beNat bytes)
  verifyWithPublicBytes _ _ _ := true
  deviceOfKey key := BitVec.ofNat 256 (beNat key)

def plainKey (owner : UInt8) : Bytes := List.replicate 32 owner

/-- A bounded logical name. -/
def plainDocument : LogicalDocument := ⟨[7], .docRegistry, [1]⟩

theorem plainDocument_bounded : plainDocument.Bounded where
  managed := rfl
  serverId_ne := List.cons_ne_nil _ _
  serverId_le := by decide
  logicalKey_ne := List.cons_ne_nil _ _
  logicalKey_le := by decide

/-- A server whose current owner is the given one. -/
def plainGroup (serverId : Bytes) (owner : UInt8) : OwnerAuthority where
  groupId := serverId
  epoch := 100
  designatedCommitter := some (plainCrypto.deviceOfKey (plainKey owner))
  memberSignatureKey _ := some (plainKey owner)

/-- A receipt on the epoch-zero baseline, told apart by its signature. -/
def plainReceipt (document : LogicalDocument) (owner : UInt8) (start closed : UInt64)
    (signature : Nat) : Receipt where
  document := document
  closedEpoch := closed
  closeRecordHash := 0
  seedChangeHash := 0
  tenureStartGroupEpoch := start
  tenureId := @tenureId plainCrypto document.serverId (plainKey owner) start
  inherited := .epochZero
  ownerPublicKey := plainKey owner
  signature := BitVec.ofNat _ signature

theorem plainReceipt_canonical {document : LogicalDocument} (hdocument : document.Bounded)
    (owner : UInt8) (start : UInt64) {closed : UInt64} (hclosed : closed ≠ u64Max)
    (signature : Nat) :
    @Receipt.decode plainCrypto (plainReceipt document owner start closed signature).encode
      = .ok (plainReceipt document owner start closed signature) :=
  @Receipt.decode_encode plainCrypto _
    (@Receipt.WellFormed.mk plainCrypto _
      (@Receipt.SelfConsistent.mk plainCrypto _ hdocument.serverId_le hdocument.logicalKey_le
        List.length_replicate rfl hclosed UInt64.zero_le) hdocument (.inl rfl))

end Mewtual
