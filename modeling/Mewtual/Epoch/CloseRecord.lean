import Mewtual.Epoch.SignedRecord

/-!
# Close records

A member's signed proposal to close one concrete epoch document at a set of heads. The
record is scoped by the server and the document type; its hash covers the transcript but
not the signature.

Main results:

- Theorem {lit}`CloseRecord.decode_close_iff`: what the decoder accepts.
- Theorem {lit}`CloseRecord.length_encode_of_decode`: what the decoder accepts is canonical
  and under the cap.
-/

namespace Mewtual

/-- Signed proposal to close one epoch at its heads. -/
structure CloseRecord where
  serverId : Bytes
  docType : DocType
  docId : Fixed 16
  closedEpoch : UInt64
  heads : List Hash32
  authorPublicKey : Bytes
  signature : Signature
  deriving DecidableEq, Repr

namespace CloseRecord

/-- The bytes of a close without its signature. -/
def unsignedBytes (close : CloseRecord) : Bytes :=
  putU8 1 ++ framed close.serverId ++ putU16 close.docType.tag ++ putU128 close.docId
    ++ putU64 close.closedEpoch ++ putU16 (UInt16.ofNat close.heads.length)
    ++ close.heads.flatMap putHash ++ framed close.authorPublicKey

/-- Canonical wire bytes. -/
def encode (close : CloseRecord) : Bytes := putSigned close.unsignedBytes close.signature

/-- What the closing device signs. -/
def signatureHash [Crypto] (close : CloseRecord) : Hash32 :=
  hashParts "catcoms-close-sig:v1" [close.serverId, putU64 close.docType.tag.toUInt64,
    putU128 close.docId, putU64 close.closedEpoch, close.unsignedBytes]

/-- Stable protocol hash used by receipts; it leaves the signature out. -/
def hash [Crypto] (close : CloseRecord) : Hash32 :=
  hashParts "catcoms-close:v1" [close.unsignedBytes]

/-- Read the unsigned transcript and check it. -/
def getUnsigned (signature : Signature) : Parser CloseRecord := do
  let version ← Decoder.orMalformed getU8
  if version ≠ 1 then throw .malformed
  let serverId ← Decoder.orMalformed getBytes
  let tag ← Decoder.orMalformed getU16
  match DocType.fromTag tag with
  | none => throw .malformed
  | some docType =>
    let docId ← Decoder.orMalformed getU128
    let closedEpoch ← Decoder.orMalformed getU64
    let count ← Decoder.orMalformed getU16
    if count.toNat = 0 ∨ count.toNat > maxHeads then throw .epochBound
    let heads ← Reader.times (getFixed 32) count.toNat
    let authorPublicKey ← Decoder.orMalformed getBytes
    Decoder.orMalformed finish
    if serverId = [] ∨ serverId.length > maxServerIdBytes ∨ authorPublicKey.length ≠ 32
        ∨ closedEpoch = u64Max ∨ ¬ heads.IsChain (· < ·) then throw .malformed
    pure ⟨serverId, docType, docId, closedEpoch, heads, authorPublicKey, signature⟩

/-- Strict decoding with the pre-parse close cap. -/
def decode : Bytes → Except ReplError CloseRecord :=
  decodeSigned maxCloseRecordBytes getUnsigned encode

/-- What the strict decoder checks of a close. -/
@[mk_iff]
structure WellFormed (close : CloseRecord) : Prop where
  serverId_ne : close.serverId ≠ []
  serverId_le : close.serverId.length ≤ maxServerIdBytes
  heads_ne : close.heads.length ≠ 0
  heads_le : close.heads.length ≤ maxHeads
  heads_lt : close.heads.IsChain (· < ·)
  authorPublicKey : close.authorPublicKey.length = 32
  closedEpoch : close.closedEpoch ≠ u64Max

theorem length_unsignedBytes (close : CloseRecord) :
    close.unsignedBytes.length = 37 + close.serverId.length + 36 * close.heads.length
      + close.authorPublicKey.length := by
  simp only [unsignedBytes, List.length_append, length_putU8, length_framed, length_putU16,
    length_putU128, length_putU64, length_flatMap_const length_putHash]
  omega

variable {close : CloseRecord}

theorem WellFormed.length_encode_le (h : close.WellFormed) :
    close.encode.length ≤ maxCloseRecordBytes := by
  have hserver := h.serverId_le
  have hheads := h.heads_le
  have hkey := h.authorPublicKey
  unfold maxServerIdBytes at hserver
  unfold maxHeads at hheads
  rw [encode, length_putSigned, length_unsignedBytes, maxCloseRecordBytes]
  omega

/-- The reader evaluates on the bytes of any framable close. -/
theorem run_getUnsigned (hserver : close.serverId.length < 2 ^ 32)
    (hheads : close.heads.length < 2 ^ 16) (hkey : close.authorPublicKey.length < 2 ^ 32)
    (pair : CloseRecord × Bytes) :
    (getUnsigned close.signature).run close.unsignedBytes = .ok pair ↔
      close.WellFormed ∧ pair = (close, []) := by
  have hcount : (UInt16.ofNat close.heads.length).toNat = close.heads.length :=
    UInt16.toNat_ofNat_of_lt' hheads
  have htimes : Reads (Reader.times (getFixed 32) close.heads.length)
      (close.heads.flatMap putHash) close.heads :=
    Reads.times fun head _ => getFixed_putHash head
  obtain ⟨found, left⟩ := pair
  change Accepts _ _ _ _ ↔ _
  simp [-accepts_getBytes, getUnsigned, unsignedBytes, (getBytes_framed hserver).accepts,
    DocType.fromTag_tag, hcount, htimes.accepts, (getBytes_framed hkey).accepts_nil,
    accepts_finish, wellFormed_iff]
  tauto

/-- The decoder accepts exactly the bytes of well-formed closes. -/
theorem decode_close_iff {bytes : Bytes} :
    decode bytes = .ok close ↔ bytes = close.encode ∧ close.WellFormed := by
  have hown (hlen : close.encode.length ≤ maxCloseRecordBytes) (found : CloseRecord) :
      decode close.encode = .ok found ↔ close.WellFormed ∧ found = close := by
    have hcap : maxCloseRecordBytes < 2 ^ 32 := by decide
    have hencode : close.encode = putSigned close.unsignedBytes close.signature := rfl
    rw [hencode, length_putSigned, length_unsignedBytes, maxCloseRecordBytes] at hlen
    exact decodeSigned_encode_iff hcap hencode (run_getUnsigned (by omega) (by omega) (by omega))
      WellFormed.length_encode_le
  constructor
  · intro h
    obtain ⟨rfl, hlen⟩ := encode_of_decodeSigned h
    exact ⟨rfl, ((hown hlen close).mp h).1⟩
  · rintro ⟨rfl, h⟩
    exact (hown h.length_encode_le close).mpr ⟨h, rfl⟩

/-- What the decoder accepts is canonical and under the cap. -/
theorem length_encode_of_decode {bytes : Bytes} (hok : decode bytes = .ok close) :
    close.encode = bytes ∧ close.encode.length ≤ maxCloseRecordBytes := by
  rcases encode_of_decodeSigned hok with ⟨rfl, hlen⟩
  exact ⟨rfl, hlen⟩

end CloseRecord

end Mewtual
