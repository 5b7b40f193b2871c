import Mewtual.Wire.Canonical

/-!
# Primitives of the epoch-close protocol

Errors, hashes, the cryptographic functions taken as parameters, and the
server-bound logical document name every epoch record is scoped to.

The hash and signature functions come from third-party code. They are the fields
of {lit}`Crypto`; where a result needs collision freedom it asks for it on exactly
the byte strings the run at hand hashes, since no 256-bit hash is injective on all
byte strings.

Main results:

- Theorem {lit}`hashParts_inj`: equal transcript hashes mean equal parts.
- Theorem {lit}`LogicalDocument.new_eq_ok`: what a bounded logical name satisfies.
- Theorem {lit}`LogicalDocument.get_put`: a bounded logical name is read back.
-/

namespace Mewtual

/-- Errors of the replication layer. The payloads of foreign errors are left out. -/
inductive ReplError where
  | mls
  | keystore
  | badSignature
  | actorMismatch
  | wrongDocument
  | epochUnavailable (epoch : UInt64)
  | automerge (reason : String)
  | noChange
  | malformed
  | epochBound
  | epochScope
  | epochAuthority
  | epochClosed
  | receiptConflict
  | repairSequenceExhausted
  | recoveryPending
  | intentConflict
  deriving DecidableEq, Repr

/-! ## Protocol bounds -/

def maxCloseRecordBytes : Nat := 4 * 1024

def maxReceiptBytes : Nat := 1024

def maxReceiptBookBytes : Nat := 8 * 1024

def maxOwnerReceiptJournalBytes : Nat := 7 * maxReceiptBytes + maxCloseRecordBytes + 1024

def maxServerIdBytes : Nat := 256

def maxLogicalKeyBytes : Nat := 192

def maxHeads : Nat := 64

def maxEpochOperations : Nat := 20000

def maxDomainOpBytes : Nat := 64 * 1024

/-- The largest {lit}`u64`, which no closed epoch may carry. -/
def u64Max : UInt64 := 18446744073709551615

/-- {lit}`u64::checked_add`. -/
def checkedAdd (left right : UInt64) : Option UInt64 :=
  if left.toNat + right.toNat < 2 ^ 64 then some (left + right) else none

theorem checkedAdd_eq_some {left right sum : UInt64} :
    checkedAdd left right = some sum ↔ left.toNat + right.toNat = sum.toNat := by
  unfold checkedAdd
  split <;> rename_i h
  · have hadd : (left + right).toNat = left.toNat + right.toNat := by
      rw [UInt64.toNat_add]
      exact Nat.mod_eq_of_lt h
    rw [Option.some.injEq, ← UInt64.toNat_inj, hadd]
  · have hsum : sum.toNat < 2 ^ 64 := sum.toNat_lt
    constructor
    · intro hnone
      cases hnone
    · intro heq
      omega

/-- A checked successor is above. -/
theorem lt_of_checkedAdd_one {value sum : UInt64} (h : checkedAdd value 1 = some sum) :
    value < sum := by
  have hsum : value.toNat + 1 = sum.toNat := checkedAdd_eq_some.mp h
  rw [UInt64.lt_iff_toNat_lt]
  omega

/-! ## Hashes, keys and the cryptographic parameters -/

/-- A 32-byte hash. -/
abbrev Hash32 := Fixed 32

instance : LawfulBEq Hash32 := inferInstance

instance : Std.TransOrd Hash32 := inferInstance

instance : Std.LawfulEqOrd Hash32 := inferInstance

/-- A device identity: the content id of the device's public key. -/
abbrev DeviceId := Fixed 32

/-- An Ed25519 signature. -/
abbrev Signature := Fixed 64

/-- A transport peer. -/
abbrev PeerId := Fixed 32

/-- The third-party functions the protocol rests on. -/
class Crypto where
  /-- SHA-256. -/
  sha256 : Bytes → Hash32
  /-- Ed25519 verification of a message under raw public-key bytes. -/
  verifyWithPublicBytes : Bytes → Bytes → Signature → Bool
  /-- The device identity committed by raw public-key bytes. -/
  deviceOfKey : Bytes → DeviceId

/-- The third-party content hash. -/
class Blake3 where
  blake3 : Bytes → Hash32

/-- The bytes of an ASCII domain separator. -/
def asciiBytes (text : String) : Bytes :=
  text.toList.map fun char => UInt8.ofNat char.toNat

/-- The transcript {lit}`hash_parts` feeds to SHA-256: the domain and each part, framed. -/
def transcript (domain : String) (parts : List Bytes) : Bytes :=
  (asciiBytes domain :: parts).flatMap framed

/-- SHA-256 over the framed domain separator and parts. -/
def hashParts [Crypto] (domain : String) (parts : List Bytes) : Hash32 :=
  Crypto.sha256 (transcript domain parts)

/-- No two of the given byte strings collide. -/
def CollisionFreeOn [Crypto] (preimages : Set Bytes) : Prop :=
  Set.InjOn Crypto.sha256 preimages

theorem flatMap_framed_inj {left right : List Bytes}
    (hlen : left.length = right.length)
    (hleft : ∀ part ∈ left, part.length < 2 ^ 32)
    (hright : ∀ part ∈ right, part.length < 2 ^ 32)
    (heq : left.flatMap framed = right.flatMap framed) : left = right := by
  induction left generalizing right with
  | nil => exact (List.length_eq_zero_iff.mp hlen.symm).symm
  | cons head tail ih =>
    cases right with
    | nil => simp at hlen
    | cons head' tail' =>
      simp only [List.flatMap_cons] at heq
      obtain ⟨hhead, htail⟩ := (getBytes_framed (hleft head (by simp))).append_inj
        (getBytes_framed (hright head' (by simp))) heq
      rw [hhead, ih (by simpa using hlen) (fun part h => hleft part (by simp [h]))
        (fun part h => hright part (by simp [h])) htail]

/-- Two transcripts of one domain and shape that hash alike have equal parts. -/
theorem hashParts_inj [Crypto] {preimages : Set Bytes} (hfree : CollisionFreeOn preimages)
    {domain : String} {left right : List Bytes}
    (hdomain : (asciiBytes domain).length < 2 ^ 32)
    (hlen : left.length = right.length)
    (hleft : ∀ part ∈ left, part.length < 2 ^ 32)
    (hright : ∀ part ∈ right, part.length < 2 ^ 32)
    (hmemLeft : transcript domain left ∈ preimages)
    (hmemRight : transcript domain right ∈ preimages)
    (heq : hashParts domain left = hashParts domain right) : left = right := by
  have htranscript := hfree hmemLeft hmemRight heq
  have hcons : asciiBytes domain :: left = asciiBytes domain :: right :=
    flatMap_framed_inj (by simp [hlen]) (List.forall_mem_cons.mpr ⟨hdomain, hleft⟩)
      (List.forall_mem_cons.mpr ⟨hdomain, hright⟩) htranscript
  exact (List.cons.inj hcons).2

/-! ## Decoding inside the replication layer -/

/-- A decoder whose wire errors have been folded into {lit}`ReplError`. -/
abbrev Parser (α : Type) := Reader ReplError α

/-- {lit}`map_err(|_| ReplError::Malformed)`. -/
def Decoder.orMalformed {α : Type} (decoder : Decoder α) : Parser α := fun input =>
  (decoder.run input).mapError fun _ => .malformed

theorem Reads.orMalformed {α : Type} {decoder : Decoder α} {bytes : Bytes} {value : α}
    (hreads : Reads decoder bytes value) : Reads decoder.orMalformed bytes value :=
  hreads.mapError fun _ => ReplError.malformed

@[simp] theorem accepts_orMalformed {α : Type} {decoder : Decoder α} {value : α}
    {input left : Bytes} :
    Accepts decoder.orMalformed input value left ↔ Accepts decoder input value left :=
  accepts_mapError

/-- With no byte left the decode goes on to its last checks. -/
theorem finish_run_bind {α : Type} (next : Unit → Parser α) :
    (Decoder.orMalformed finish >>= next).run [] = (next ()).run [] := rfl

/-- Read a byte field that must be exactly {lit}`n` bytes long. -/
def getFixed (n : Nat) : Parser (Fixed n) := do
  let bytes ← Decoder.orMalformed getBytes
  if bytes.length ≠ n then throw .malformed
  pure (BitVec.ofNat (8 * n) (beNat bytes))

/-- Append a fixed hash as a byte field. -/
def putHash (value : Hash32) : Bytes := framed (fixedBytes value)

/-- An optional hash after its presence byte. -/
def putOptionalHash : Option Hash32 → Bytes
  | some value => putU8 1 ++ putHash value
  | none => putU8 0

def getOptionalHash : Parser (Option Hash32) := do
  let tag ← Decoder.orMalformed getU8
  if tag = 0 then pure none
  else if tag = 1 then some <$> getFixed 32
  else throw .malformed

@[simp] theorem length_putHash (value : Hash32) : (putHash value).length = 36 := by
  simp [putHash]

theorem getFixed_framed {n : Nat} (hn : n < 2 ^ 32) (value : Fixed n) :
    Reads (getFixed n) (framed (fixedBytes value)) value :=
  getArray_framed ReplError.malformed hn value

theorem getFixed_putHash (value : Hash32) : Reads (getFixed 32) (putHash value) value :=
  getFixed_framed (by decide) value

theorem accepts_getFixed {n : Nat} {value : Fixed n} {input left : Bytes} :
    Accepts (getFixed n) input value left ↔
      input = framed (fixedBytes value) ++ left ∧ n < 2 ^ 32 :=
  accepts_getArray

/-- A presence byte followed by the field it announces. -/
def getOptional {α : Type} (reader : Parser α) : Parser (Option α) := do
  let tag ← Decoder.orMalformed getU8
  if tag = 0 then pure none
  else if tag = 1 then some <$> reader
  else throw .malformed

@[simp] theorem accepts_getHash {value : Hash32} {input left : Bytes} :
    Accepts (getFixed 32) input value left ↔ input = putHash value ++ left := by
  simp [accepts_getFixed, putHash]

@[simp] theorem putHash_append_inj {first second : Hash32} {rest left : Bytes} :
    putHash first ++ rest = putHash second ++ left ↔ first = second ∧ rest = left :=
  Reads.append_inj_iff getFixed_putHash

@[simp] theorem putHash_inj {first second : Hash32} :
    putHash first = putHash second ↔ first = second :=
  Reads.inj_iff getFixed_putHash

section Optional

variable {α : Type} {reader : Parser α} {bytes : Bytes} {value : α}

theorem getOptional_none (reader : Parser α) : Reads (getOptional reader) (putU8 0) none := by
  simp [reads_iff, getOptional]

theorem getOptional_when {valid : Prop} (h : ReadsWhen reader bytes valid value) :
    ReadsWhen (getOptional reader) (putU8 1 ++ bytes) valid (some value) := by
  rw [readsWhen_iff] at h ⊢
  simp [getOptional, h, and_assoc, and_comm]

theorem getOptional_some (hreads : Reads reader bytes value) :
    Reads (getOptional reader) (putU8 1 ++ bytes) (some value) :=
  (getOptional_when (.of_reads hreads trivial)).reads trivial

/-- What an optional field holds was read by its reader. -/
theorem accepts_of_getOptional {input left : Bytes} {found : Option α}
    (h : Accepts (getOptional reader) input found left) :
    ∀ value ∈ found, ∃ rest, Accepts reader rest value left := by
  simp only [getOptional, accepts_bind, accepts_ite, accepts_pure, accepts_map,
    not_accepts_throw] at h
  obtain ⟨-, rest, -, ⟨-, rfl, -⟩ | ⟨-, ⟨-, value, hvalue, rfl⟩ | ⟨-, ⟨⟩⟩⟩⟩ := h
  · intro value hmem
    cases hmem
  · rintro _ ⟨⟩
    exact ⟨rest, hvalue⟩

end Optional

theorem getOptionalHash_put (value : Option Hash32) :
    Reads getOptionalHash (putOptionalHash value) value := by
  cases value with
  | none => exact getOptional_none _
  | some hash => exact getOptional_some (getFixed_putHash hash)

@[simp] theorem putOptionalHash_append_inj {first second : Option Hash32} {rest left : Bytes} :
    putOptionalHash first ++ rest = putOptionalHash second ++ left ↔
      first = second ∧ rest = left :=
  Reads.append_inj_iff getOptionalHash_put

/-! ## Logical documents -/

/-- Document types. The tag values are stable across versions. -/
inductive DocType where
  | channel | wiki | status | calendar | inviteLedger | memberRoles | fileIndex | routing
  | profile | livery | badges | devices | channelIndex | moderation | studioIndex
  | studioObject | postReplies | docRegistry
  deriving DecidableEq, Repr

/-- The stable fixed-width tag of a document type. -/
def DocType.tag : DocType → UInt16
  | .channel => 1
  | .wiki => 2
  | .status => 3
  | .calendar => 4
  | .inviteLedger => 5
  | .memberRoles => 6
  | .fileIndex => 7
  | .routing => 8
  | .profile => 9
  | .livery => 10
  | .badges => 11
  | .devices => 12
  | .channelIndex => 13
  | .moderation => 14
  | .studioIndex => 15
  | .studioObject => 16
  | .postReplies => 17
  | .docRegistry => 18

/-- Recover a document type from its stable tag. -/
def DocType.fromTag (tag : UInt16) : Option DocType :=
  match tag.toNat with
  | 1 => some .channel
  | 2 => some .wiki
  | 3 => some .status
  | 4 => some .calendar
  | 5 => some .inviteLedger
  | 6 => some .memberRoles
  | 7 => some .fileIndex
  | 8 => some .routing
  | 9 => some .profile
  | 10 => some .livery
  | 11 => some .badges
  | 12 => some .devices
  | 13 => some .channelIndex
  | 14 => some .moderation
  | 15 => some .studioIndex
  | 16 => some .studioObject
  | 17 => some .postReplies
  | 18 => some .docRegistry
  | _ => none

@[simp] theorem DocType.fromTag_tag (docType : DocType) :
    DocType.fromTag docType.tag = some docType := by
  cases docType <;> rfl

@[simp] theorem DocType.tag_inj {left right : DocType} : left.tag = right.tag ↔ left = right := by
  refine ⟨fun heq => ?_, congrArg tag⟩
  have hsome := DocType.fromTag_tag left
  rw [heq, DocType.fromTag_tag] at hsome
  exact (Option.some.inj hsome).symm

theorem DocType.fromTag_eq_some {tag : UInt16} {docType : DocType} :
    DocType.fromTag tag = some docType ↔ tag = docType.tag := by
  constructor
  · intro h
    unfold fromTag at h
    split at h <;> cases h
    all_goals exact UInt16.toNat_inj.mp ‹_›
  · rintro rfl
    exact fromTag_tag docType

/-- The document types the epoch-close protocol manages. -/
def isEpochManagedDocType : DocType → Bool
  | .studioIndex | .studioObject | .postReplies | .docRegistry => true
  | _ => false

/-- A server-bound logical document name. -/
structure LogicalDocument where
  serverId : Bytes
  docType : DocType
  logicalKey : Bytes
  deriving DecidableEq, Repr

namespace LogicalDocument

/-- Construct a bounded logical name suitable for hashing and wire records. -/
def new (serverId : Bytes) (docType : DocType) (logicalKey : Bytes) :
    Except ReplError LogicalDocument :=
  if !isEpochManagedDocType docType || serverId.isEmpty
      || decide (serverId.length > maxServerIdBytes) || logicalKey.isEmpty
      || decide (logicalKey.length > maxLogicalKeyBytes) then
    .error .epochBound
  else .ok ⟨serverId, docType, logicalKey⟩

/-- What the constructor checks of a logical name. -/
structure Bounded (document : LogicalDocument) : Prop where
  managed : isEpochManagedDocType document.docType = true
  serverId_ne : document.serverId ≠ []
  serverId_le : document.serverId.length ≤ maxServerIdBytes
  logicalKey_ne : document.logicalKey ≠ []
  logicalKey_le : document.logicalKey.length ≤ maxLogicalKeyBytes

variable {document : LogicalDocument}

theorem Bounded.lengths (hb : document.Bounded) :
    document.serverId.length ≤ 256 ∧ document.logicalKey.length ≤ 192 :=
  ⟨hb.serverId_le, hb.logicalKey_le⟩

theorem new_eq_ok {serverId logicalKey : Bytes} {docType : DocType} :
    new serverId docType logicalKey = .ok document ↔
      document = ⟨serverId, docType, logicalKey⟩ ∧ Bounded ⟨serverId, docType, logicalKey⟩ := by
  unfold new
  split <;> rename_i h
  · constructor
    · intro herr
      cases herr
    · rintro ⟨-, hb⟩
      have h1 := hb.managed
      have h2 := hb.serverId_ne
      have h3 := hb.serverId_le
      have h4 := hb.logicalKey_ne
      have h5 := hb.logicalKey_le
      simp_all
      omega
  · simp only [Bool.or_eq_true, Bool.not_eq_true', List.isEmpty_iff, decide_eq_true_eq,
      not_or, Bool.not_eq_false, Nat.not_lt] at h
    obtain ⟨⟨⟨⟨h1, h2⟩, h3⟩, h4⟩, h5⟩ := h
    rw [Except.ok.injEq]
    exact ⟨fun heq => ⟨heq.symm, ⟨h1, h2, h3, h4, h5⟩⟩, fun heq => heq.1.symm⟩

theorem Bounded.new_eq (hb : document.Bounded) :
    new document.serverId document.docType document.logicalKey = .ok document :=
  new_eq_ok.mpr ⟨rfl, hb⟩

/-- The scope fields every epoch record begins with. -/
def put (document : LogicalDocument) : Bytes :=
  framed document.serverId ++ putU16 document.docType.tag ++ framed document.logicalKey

/-- Read the scope fields and rebuild the bounded name. -/
def get : Parser LogicalDocument := do
  let serverId ← Decoder.orMalformed getBytes
  let tag ← Decoder.orMalformed getU16
  match DocType.fromTag tag with
  | none => throw .malformed
  | some docType =>
    let logicalKey ← Decoder.orMalformed getBytes
    match new serverId docType logicalKey with
    | .error error => throw error
    | .ok document => pure document

/-- The scope fields of a framable name are accepted exactly when the name is bounded. -/
theorem get_when (hserver : document.serverId.length < 2 ^ 32)
    (hkey : document.logicalKey.length < 2 ^ 32) :
    ReadsWhen get document.put document.Bounded document := by
  have hbounded : document.Bounded ↔
      new document.serverId document.docType document.logicalKey = .ok document := by
    simp [new_eq_ok]
  rw [hbounded]
  cases hnew : new document.serverId document.docType document.logicalKey with
  | error error =>
    simp [readsWhen_iff, get, put, (getBytes_framed hserver).accepts,
      (getBytes_framed hkey).accepts, DocType.fromTag_tag, hnew]
  | ok decoded =>
    cases (new_eq_ok.mp hnew).1
    simp [readsWhen_iff, get, put, (getBytes_framed hserver).accepts,
      (getBytes_framed hkey).accepts, DocType.fromTag_tag, hnew]

theorem get_put (hb : document.Bounded) : Reads get document.put document := by
  obtain ⟨hserver, hkey⟩ := hb.lengths
  exact (get_when (by omega) (by omega)).reads hb

/-- The scope fields of framable names are unambiguous. -/
theorem put_append_inj {left right : LogicalDocument} {restLeft restRight : Bytes}
    (hls : left.serverId.length < 2 ^ 32) (hlk : left.logicalKey.length < 2 ^ 32)
    (hrs : right.serverId.length < 2 ^ 32) (hrk : right.logicalKey.length < 2 ^ 32) :
    left.put ++ restLeft = right.put ++ restRight ↔ left = right ∧ restLeft = restRight := by
  cases left
  cases right
  simp [put, framed_append_inj hls hrs, framed_append_inj hlk hrk, and_assoc]

@[simp] theorem length_put (document : LogicalDocument) :
    document.put.length = 10 + document.serverId.length + document.logicalKey.length := by
  simp only [put, List.length_append, length_framed, length_putU16]
  omega

end LogicalDocument

/-! ## Owner tenures -/

/-- The transcript an owner-tenure identifier hashes. -/
def tenureParts (serverId ownerPublicKey : Bytes) (start : UInt64) : List Bytes :=
  [serverId, ownerPublicKey, putU64 start]

/-- Owner-tenure identifier repeated by every receipt of one document in that tenure. -/
def tenureId [Crypto] (serverId ownerPublicKey : Bytes) (start : UInt64) : Hash32 :=
  hashParts "catcoms-tenure:v1" (tenureParts serverId ownerPublicKey start)

/-- The four current-owner facts an authority check may read. -/
structure OwnerAuthority where
  groupId : Bytes
  epoch : UInt64
  designatedCommitter : Option DeviceId
  memberSignatureKey : DeviceId → Option Bytes

end Mewtual
