import Mewtual.Doc.SignedOp
import Mewtual.Lib.Ascending
import Mewtual.Recovery.Snapshot
import Mewtual.Registry.Operation

/-!
# Typed recovery of a registry bucket

What is kept of a registry bucket that is replaced: its complete projection, the receipt it was
opened by, and its operations with their authors. The payload travels inside a generic recovery
snapshot, and its exact size is known before it is written.

Main results:

- Theorem {lit}`RegistryRecovery.size_eq`: the size computed before writing is the length written.
- Theorem {lit}`RegistryRecovery.readPayload_put`: a payload is read back.
- Theorem {lit}`RegistryRecovery.fromSnapshot_eq`: a snapshot of the whole source is accepted.
-/

namespace Mewtual

open Std

/-- A seed has a bounded number of keys, and every accepted operation adds at most one. -/
def maxRecoveryKeys : Nat := maxRegistryPointers + maxEpochOperations

/-- Typed projection and author-attributed operations. -/
structure RegistryRecovery where
  projection : RegistryProjection
  receiptHash : Hash32
  excluded : ExtTreeMap Hash32 LocalIntent

def LocalIntent.id [Crypto] (intent : LocalIntent) : Hash32 := intent.operation.id intent.author

namespace RegistryRecovery

/-! ## Writing -/

def putKey (key : PointerKey) : Bytes := putU16 key.docType.tag ++ framed key.key

def putPointer (entry : PointerKey × UInt64) : Bytes := putKey entry.1 ++ putU64 entry.2

def putIntent (intent : LocalIntent) : Bytes :=
  putHash intent.author ++ framed intent.operation.bytes

/-- The bytes that are written once the checks have passed: every operation has then been encoded
before, and no field is too long for its frame. -/
def put (typed : RegistryRecovery) : Bytes :=
  putU8 1 ++ (framed typed.projection.document.serverId ++ (putU8 typed.projection.bucket ++
    (putHash typed.receiptHash ++ (putCounted putPointer typed.projection.pointers.toList ++
    (putCounted putPointer typed.projection.overflow.toList ++
    (putCounted putKey typed.projection.tombstones.toList ++
    putCounted putIntent (treeValues typed.excluded)))))))

/-- What an operation adds to the size. -/
def intentSize [Crypto] (json : JsonLibrary) (projection : RegistryProjection)
    (intent : LocalIntent) : Except ReplError Nat := do
  discard (validateDomain json projection.document projection.bucket intent.operation)
  let bytes ← intent.operation.encode
  pure (36 + 4 + bytes.length)

/-- The exact size, before anything is allocated. -/
def size [Crypto] (json : JsonLibrary) (typed : RegistryRecovery) :
    Except ReplError Nat := do
  let intents ← (treeValues typed.excluded).mapM (intentSize json typed.projection)
  pure (1 + 4 + typed.projection.document.serverId.length + 1 + 36 + 4 * 4 +
    ((typed.projection.pointers.toList ++ typed.projection.overflow.toList).map fun entry =>
      2 + 4 + entry.1.key.length + 8).sum +
    (typed.projection.tombstones.toList.map fun key => 2 + 4 + key.key.length).sum + intents.sum)

/-- The payload of a recovery snapshot. -/
def encode [Crypto] (json : JsonLibrary) (typed : RegistryRecovery) (limit : Nat) :
    Except ReplError Bytes :=
  if typed.projection.pointers.size > maxRegistryPointers ∨
      typed.projection.pointers.size + typed.projection.overflow.size +
        typed.projection.tombstones.size > maxRecoveryKeys ∨
      typed.excluded.size > maxEpochOperations then
    .error .epochBound
  else do
    let size ← typed.size json
    if size > limit then .error .epochBound else .ok typed.put

/-! ## Reading -/

/-- Read a key of the bucket. -/
def readKey [Crypto] (bucket : UInt8) : Parser PointerKey := do
  let tag ← Decoder.orMalformed getU16
  let docType ← Reader.check ((DocType.fromTag tag).elim (.error .malformed) .ok)
  let bytes ← Decoder.orMalformed getBytes
  if bytes.length > 192 then throw .epochBound
  let key ← Reader.check (PointerKey.new docType bytes)
  if key.bucket ≠ bucket then throw .epochScope
  pure key

def readPointer [Crypto] (bucket : UInt8) : Parser (PointerKey × UInt64) := do
  let key ← readKey bucket
  let epoch ← Decoder.orMalformed getU64
  pure (key, epoch)

/-- A counted run in ascending order of the keys. -/
def readAscending {α κ : Type} [Ord κ] (max : Nat) (keyOf : α → κ) (reader : Parser α) :
    Parser (List α) := do
  let count ← Decoder.orMalformed getU32
  if count.toNat > max then throw .epochBound
  Reader.ascending .malformed keyOf reader count.toNat none

/-- An operation of this bucket that the snapshot lists as applied. The list ascends, so that the
source finds an identity in it by bisection. -/
def readIntent [Crypto] (json : JsonLibrary) (expected : LogicalDocument) (bucket : UInt8)
    (appliedOps : List Hash32) : Parser LocalIntent := do
  let author ← getFixed 32
  let bytes ← Decoder.orMalformed getBytes
  let operation ← Reader.check (DomainOp.decode bytes)
  let _ ← Reader.check (validateDomain json expected bucket operation)
  if operation.id author ∉ appliedOps then throw .malformed
  pure ⟨author, operation⟩

/-- No key is listed twice, and nothing overflows before all slots are used. -/
def Overlapping (pointers overflow : ExtTreeMap PointerKey UInt64) (tombstones : List PointerKey) :
    Prop :=
  (∃ key ∈ overflow.keys, pointers.contains key = true) ∨
    (∃ key ∈ tombstones, pointers.contains key = true ∨ overflow.contains key = true) ∨
    (overflow.isEmpty = false ∧ pointers.size ≠ maxRegistryPointers)

instance (pointers overflow : ExtTreeMap PointerKey UInt64) (tombstones : List PointerKey) :
    Decidable (Overlapping pointers overflow tombstones) :=
  inferInstanceAs (Decidable (_ ∨ _))

/-- The fields of the payload. The three runs of keys share one budget. -/
def readPayload [Crypto] (json : JsonLibrary) (expected : LogicalDocument) (bucket : UInt8)
    (epoch : UInt64) (appliedOps : List Hash32) : Parser RegistryRecovery := do
  let version ← Decoder.orMalformed getU8
  if version ≠ 1 then throw .epochScope
  let serverId ← Decoder.orMalformed getBytes
  if serverId ≠ expected.serverId then throw .epochScope
  let found ← Decoder.orMalformed getU8
  if found ≠ bucket then throw .epochScope
  let receiptHash ← getFixed 32
  let pointers ← readAscending (min maxRegistryPointers maxRecoveryKeys) Prod.fst
    (readPointer bucket)
  let overflow ← readAscending (min maxRecoveryKeys (maxRecoveryKeys - pointers.length)) Prod.fst
    (readPointer bucket)
  let tombstones ← readAscending (maxRecoveryKeys - pointers.length - overflow.length)
    (fun key => key) (readKey bucket)
  if Overlapping (insertAll ∅ pointers) (insertAll ∅ overflow) tombstones then throw .malformed
  let intents ← readAscending maxEpochOperations LocalIntent.id
    (readIntent json expected bucket appliedOps)
  pure {
    projection := {
      document := expected
      bucket := bucket
      epoch := epoch
      pointers := insertAll ∅ pointers
      overflow := insertAll ∅ overflow
      tombstones := .ofList tombstones }
    receiptHash := receiptHash
    excluded := insertAll ∅ (intents.map fun intent => (intent.id, intent)) }

/-- The versions kept with their whole source. -/
def wholeSource (reason : RecoveryReason) : Bool := reason = .rewound ∨ reason = .repair

/-- A snapshot of something else than this bucket. -/
def OutOfScope (snapshot : RecoverySnapshot) (expected : LogicalDocument) : Prop :=
  snapshot.docType ≠ .docRegistry ∨ snapshot.logicalKey ≠ expected.logicalKey ∨
    snapshot.epoch > maxRegistryEpoch ∨
    (snapshot.epoch = maxRegistryEpoch ∧ wholeSource snapshot.reason = false) ∨
    ¬ (snapshot.epoch = 0 ↔ snapshot.baseCloseRecordHash = none) ∨
    snapshot.reason = .conflictOverflow ∨ snapshot.elements ≠ [] ∨ snapshot.tombstones ≠ [] ∨
    snapshot.conflicts ≠ []

instance (snapshot : RecoverySnapshot) (expected : LogicalDocument) :
    Decidable (OutOfScope snapshot expected) := by
  unfold OutOfScope
  infer_instance

/-- A payload that keeps nothing, or whose whole source is not what the snapshot lists. -/
def Mismatched (typed : RegistryRecovery) (snapshot : RecoverySnapshot) : Prop :=
  (typed.excluded.isEmpty = true ∧ typed.projection.overflow.isEmpty = true ∧
      typed.projection.tombstones.isEmpty = true ∧
      (wholeSource snapshot.reason = false ∨ typed.projection.pointers.isEmpty = true)) ∨
    (wholeSource snapshot.reason = true ∧ (typed.excluded.keys ≠ snapshot.appliedOps ∨
      ¬ (snapshot.epoch = 0 ↔ typed.receiptHash = 0)))

instance (typed : RegistryRecovery) (snapshot : RecoverySnapshot) :
    Decidable (typed.Mismatched snapshot) := by
  unfold Mismatched
  infer_instance

/-- Read a recovery snapshot back. -/
def fromSnapshot [Crypto] (json : JsonLibrary) (snapshot : RecoverySnapshot)
    (expected : LogicalDocument) (bucket : UInt8) : Except ReplError RegistryRecovery :=
  if expected.serverId = [] ∨ expected.serverId.length > 256 then .error .epochScope
  else do
    let document ← registryDocument expected.serverId bucket
    if expected ≠ document ∨ OutOfScope snapshot expected then .error .epochScope
    else do
      discard snapshot.encode
      let typed ← Reader.whole .malformed
        (readPayload json expected bucket snapshot.epoch snapshot.appliedOps) snapshot.projection
      if typed.Mismatched snapshot then .error .malformed
      else do
        let again ← typed.encode json maxRecoverySnapshotBytes
        if again ≠ snapshot.projection then .error .malformed else .ok typed

/-! ## Keeping a source that is replaced -/

/-- The outer snapshot around a payload. -/
def outer (projection : RegistryProjection) (opening : Option Receipt)
    (operations : ExtTreeMap Hash32 LocalIntent) (reason : RecoveryReason) (payload : Bytes) :
    RecoverySnapshot where
  docType := .docRegistry
  logicalKey := projection.document.logicalKey
  epoch := projection.epoch
  baseCloseRecordHash := opening.map Receipt.closeRecordHash
  reason := reason
  projection := payload
  tombstones := []
  elements := []
  conflicts := []
  appliedOps := operations.keys

/-- Nothing would be kept. -/
def NothingKept (projection : RegistryProjection) (operations : ExtTreeMap Hash32 LocalIntent) :
    Prop :=
  operations.isEmpty = true ∧ projection.pointers.isEmpty = true ∧
    projection.overflow.isEmpty = true ∧ projection.tombstones.isEmpty = true

instance (projection : RegistryProjection) (operations : ExtTreeMap Hash32 LocalIntent) :
    Decidable (NothingKept projection operations) :=
  inferInstanceAs (Decidable (_ ∧ _))

/-- Evidence of the whole version. -/
def snapshotForReplacement [Crypto] (json : JsonLibrary)
    (projection : RegistryProjection) (opening : Option Receipt)
    (operations : ExtTreeMap Hash32 LocalIntent) (reason : RecoveryReason) :
    Except ReplError (Option RecoverySnapshot) :=
  if wholeSource reason = false then .error .malformed
  else if NothingKept projection operations then .ok none
  else do
    let overhead ← (outer projection opening operations reason []).encode
    let typed : RegistryRecovery := ⟨projection, (opening.map Receipt.hash).getD 0, operations⟩
    let payload ← typed.encode json (maxRecoverySnapshotBytes - overhead.length)
    discard (outer projection opening operations reason payload).encode
    pure (some (outer projection opening operations reason payload))

/-! ## The sections are read back -/

theorem readKey_putKey [Crypto] (key : PointerKey) :
    Reads (readKey key.bucket) (putKey key) key := by
  have hle := key.key_le
  have hframed := getBytes_framed (show key.key.length < 2 ^ 32 by omega)
  simp [-accepts_getBytes, reads_iff, readKey, putKey, DocType.fromTag_tag, hframed.accepts, hle,
    key.new_eq]

theorem readPointer_putPointer [Crypto] (entry : PointerKey × UInt64) :
    Reads (readPointer entry.1.bucket) (putPointer entry) entry := by
  simp [reads_iff, readPointer, putPointer, (readKey_putKey entry.1).accepts,
    Reads.inj_iff getU64_putU64]

theorem readAscending_putCounted {α κ : Type} [Ord κ] {max : Nat} {keyOf : α → κ}
    {reader : Parser α} {put : α → Bytes} {entries : List α} (hmax : max < 2 ^ 32)
    (hle : entries.length ≤ max) (hreads : ∀ entry ∈ entries, Reads reader (put entry) entry)
    (hascending : entries.Pairwise fun left right => compare (keyOf left) (keyOf right) = .lt) :
    Reads (readAscending max keyOf reader) (putCounted put entries) entries := by
  have hcount : (UInt32.ofNat entries.length).toNat = entries.length :=
    UInt32.toNat_ofNat_of_lt' (hle.trans_lt hmax)
  intro rest
  rw [readAscending, putCounted, List.append_assoc, (getU32_putU32 _).orMalformed.run_bind, hcount,
    if_neg (Nat.not_lt.mpr hle)]
  exact Reads.ascending hreads hascending forall_mem_none rest

/-- The entries of a map of pointers of one bucket. -/
theorem readPointers_toList [Crypto] {bucket : UInt8} {map : ExtTreeMap PointerKey UInt64}
    (hbucket : ∀ key : PointerKey, key ∈ map → key.bucket = bucket) {max : Nat}
    (hmax : max < 2 ^ 32)
    (hle : map.size ≤ max) :
    Reads (readAscending max Prod.fst (readPointer bucket)) (putCounted putPointer map.toList)
      map.toList := by
  refine readAscending_putCounted hmax ?_ ?_ ExtTreeMap.ordered_keys_toList
  · rw [ExtTreeMap.length_toList]
    exact hle
  · rintro ⟨key, epoch⟩ hentry
    have hmem : key ∈ map :=
      mem_iff_getElem?.mpr ⟨epoch, ExtTreeMap.mem_toList_iff_getElem?_eq_some.mp hentry⟩
    have hread := readPointer_putPointer (key, epoch)
    rw [hbucket key hmem] at hread
    exact hread

theorem readTombstones_toList [Crypto] {bucket : UInt8} {set : ExtTreeSet PointerKey}
    (hbucket : ∀ key : PointerKey, key ∈ set → key.bucket = bucket) {max : Nat}
    (hmax : max < 2 ^ 32)
    (hle : set.size ≤ max) :
    Reads (readAscending max (fun key => key) (readKey bucket)) (putCounted putKey set.toList)
      set.toList := by
  refine readAscending_putCounted hmax ?_ ?_ ExtTreeSet.ordered_toList
  · rw [ExtTreeSet.length_toList]
    exact hle
  · intro key hkey
    have hread := readKey_putKey key
    rw [hbucket key (ExtTreeSet.mem_toList.mp hkey)] at hread
    exact hread

/-! ## Payloads that are written and read back -/

/-- What a payload must be to be written, and to be read back. -/
structure WellFormed [Crypto] (json : JsonLibrary) (typed : RegistryRecovery) : Prop where
  shape : typed.projection.WellShaped
  bucket : ∀ key : PointerKey, key ∈ typed.projection.pointers ∨ key ∈ typed.projection.overflow ∨
    key ∈ typed.projection.tombstones → key.bucket = typed.projection.bucket
  keys : typed.projection.pointers.size + typed.projection.overflow.size +
    typed.projection.tombstones.size ≤ maxRecoveryKeys
  operations : typed.excluded.size ≤ maxEpochOperations
  keyed : ∀ (id : Hash32) (intent : LocalIntent), typed.excluded[id]? = some intent → intent.id = id
  valid : ∀ intent ∈ treeValues typed.excluded, intent.operation.Encodable ∧
    ∃ op, validateDomain json typed.projection.document typed.projection.bucket intent.operation =
      .ok op

theorem length_putPointer (entry : PointerKey × UInt64) :
    (putPointer entry).length = 2 + 4 + entry.1.key.length + 8 := by
  simp only [putPointer, putKey, List.length_append, length_putU16, length_framed, length_putU64]
  omega

theorem length_putKey (key : PointerKey) : (putKey key).length = 2 + 4 + key.key.length := by
  simp only [putKey, List.length_append, length_putU16, length_framed]
  omega

theorem length_putIntent (intent : LocalIntent) :
    (putIntent intent).length = 36 + 4 + intent.operation.bytes.length := by
  simp only [putIntent, List.length_append, length_putHash, length_framed]
  omega

/-- The length that is written. -/
theorem length_put (typed : RegistryRecovery) :
    typed.put.length = 1 + 4 + typed.projection.document.serverId.length + 1 + 36 + 4 * 4 +
      ((typed.projection.pointers.toList ++ typed.projection.overflow.toList).map fun entry =>
        2 + 4 + entry.1.key.length + 8).sum +
      (typed.projection.tombstones.toList.map fun key => 2 + 4 + key.key.length).sum +
      ((treeValues typed.excluded).map fun intent =>
        36 + 4 + intent.operation.bytes.length).sum := by
  simp only [put, List.length_append, length_putU8, length_framed, length_putHash,
    length_putCounted, length_putPointer, length_putKey, length_putIntent, List.map_append,
    List.sum_append]
  omega

section Codec

variable [Crypto] {json : JsonLibrary} {typed : RegistryRecovery}

/-- The size computed before writing is the length written. -/
theorem size_eq (h : typed.WellFormed json) : typed.size json = .ok typed.put.length := by
  have hintents : (treeValues typed.excluded).mapM (intentSize json typed.projection) =
      .ok ((treeValues typed.excluded).map fun intent =>
        36 + 4 + intent.operation.bytes.length) := by
    refine mapM_eq_ok_map fun intent hintent => ?_
    obtain ⟨hencodable, op, hop⟩ := h.valid intent hintent
    unfold intentSize
    rw [hop, DomainOp.encode_eq_ok.mpr ⟨hencodable, rfl⟩]
    rfl
  unfold size
  rw [hintents, ok_bind, length_put]
  rfl

theorem encode_eq (h : typed.WellFormed json) {limit : Nat} (hlimit : typed.put.length ≤ limit) :
    typed.encode json limit = .ok typed.put := by
  unfold encode
  rw [if_neg, size_eq h, ok_bind, if_neg (Nat.not_lt.mpr hlimit)]
  rintro (hpointers | hkeys | hoperations)
  · exact Nat.not_lt.mpr h.shape.bounded hpointers
  · exact Nat.not_lt.mpr h.keys hkeys
  · exact Nat.not_lt.mpr h.operations hoperations

theorem readIntent_putIntent {intent : LocalIntent} {document : LogicalDocument} {bucket : UInt8}
    {appliedOps : List Hash32} (hencodable : intent.operation.Encodable) {op : RegistryOp}
    (hop : validateDomain json document bucket intent.operation = .ok op)
    (hmem : intent.id ∈ appliedOps) :
    Reads (readIntent json document bucket appliedOps) (putIntent intent) intent := by
  have hlength := hencodable.length_le
  unfold maxDomainOpBytes at hlength
  have hframed := getBytes_framed (show intent.operation.bytes.length < 2 ^ 32 by omega)
  have happlied : intent.operation.id intent.author ∈ appliedOps := hmem
  simp [-accepts_getBytes, reads_iff, readIntent, putIntent, hframed.accepts,
    DomainOp.decode_encode hencodable, hop, happlied]

section

variable (h : typed.WellFormed json)

include h

/-- The operations of a payload are read back. -/
theorem readIntents_treeValues :
    Reads (readAscending maxEpochOperations LocalIntent.id
        (readIntent json typed.projection.document typed.projection.bucket typed.excluded.keys))
      (putCounted putIntent (treeValues typed.excluded)) (treeValues typed.excluded) := by
  refine readAscending_putCounted (by decide) ?_ ?_ (pairwise_treeValues h.keyed)
  · rw [length_treeValues]
    exact h.operations
  · intro intent hintent
    obtain ⟨hencodable, op, hop⟩ := h.valid intent hintent
    obtain ⟨id, hid⟩ := mem_treeValues.mp hintent
    refine readIntent_putIntent hencodable hop ?_
    rw [h.keyed id intent hid, ExtTreeMap.mem_keys, ExtTreeMap.mem_iff_isSome_getElem?, hid]
    rfl

/-- A map whose values know their keys is filled again from its values. -/
theorem insertAll_intents :
    insertAll ∅ ((treeValues typed.excluded).map fun intent => (intent.id, intent)) =
      typed.excluded := by
  have hentries : (treeValues typed.excluded).map (fun intent => (intent.id, intent)) =
      typed.excluded.toList := by
    unfold treeValues
    rw [List.map_map]
    conv_rhs => rw [← List.map_id typed.excluded.toList]
    refine List.map_congr_left ?_
    rintro ⟨id, intent⟩ hentry
    have hid := h.keyed id intent (ExtTreeMap.mem_toList_iff_getElem?_eq_some.mp hentry)
    show (intent.id, intent) = (id, intent)
    rw [hid]
  rw [hentries, insertAll_toList]

theorem not_overlapping :
    ¬ Overlapping typed.projection.pointers typed.projection.overflow
      typed.projection.tombstones.toList := by
  rintro (⟨key, hkey, hpointer⟩ | ⟨key, hkey, hlive⟩ | ⟨hoverflow, hsize⟩)
  · exact h.shape.disjoint key
      ⟨ExtTreeMap.contains_iff_mem.mp hpointer, ExtTreeMap.mem_keys.mp hkey⟩
  · refine h.shape.live key ?_ (ExtTreeSet.mem_toList.mp hkey)
    exact hlive.imp ExtTreeMap.contains_iff_mem.mp ExtTreeMap.contains_iff_mem.mp
  · refine hsize (h.shape.full fun hempty => ?_)
    rw [hempty] at hoverflow
    simp at hoverflow

/-- A payload is read back. -/
theorem readPayload_put :
    Reads (readPayload json typed.projection.document typed.projection.bucket
      typed.projection.epoch typed.excluded.keys) typed.put typed := by
  intro rest
  have hserver : typed.projection.document.serverId.length < 2 ^ 32 := by
    have hbounded := (LogicalDocument.new_eq_ok.mp h.shape.document).2
    have hle := hbounded.serverId_le
    unfold maxServerIdBytes at hle
    exact hle.trans_lt (by decide)
  have hkeys := h.keys
  have hbounded := h.shape.bounded
  have hmax : maxRecoveryKeys < 2 ^ 32 := by decide
  have hpointersLe : maxRegistryPointers ≤ maxRecoveryKeys := by decide
  have hpointers := readPointers_toList (fun key hkey => h.bucket key (.inl hkey))
    (show min maxRegistryPointers maxRecoveryKeys < 2 ^ 32 by omega)
    (Nat.le_min.mpr ⟨hbounded, hbounded.trans hpointersLe⟩)
  have hoverflow := readPointers_toList (fun key hkey => h.bucket key (.inr (.inl hkey)))
    (show min maxRecoveryKeys (maxRecoveryKeys - typed.projection.pointers.size) < 2 ^ 32 by omega)
    (show typed.projection.overflow.size ≤
      min maxRecoveryKeys (maxRecoveryKeys - typed.projection.pointers.size) by omega)
  have htombstones := readTombstones_toList (fun key hkey => h.bucket key (.inr (.inr hkey)))
    (show maxRecoveryKeys - typed.projection.pointers.size - typed.projection.overflow.size <
      2 ^ 32 by omega) (by omega)
  simp only [readPayload, put, List.append_assoc]
  rw [(getU8_putU8 1).orMalformed.run_bind, if_neg (by decide),
    (getBytes_framed hserver).orMalformed.run_bind, if_neg (not_not.mpr rfl),
    (getU8_putU8 _).orMalformed.run_bind, if_neg (not_not.mpr rfl), (getFixed_putHash _).run_bind,
    hpointers.run_bind, ExtTreeMap.length_toList, hoverflow.run_bind, ExtTreeMap.length_toList,
    htombstones.run_bind, insertAll_toList, insertAll_toList, if_neg (not_overlapping h),
    (readIntents_treeValues h).run_bind, insertAll_intents h, ofList_toList]
  rfl

end

end Codec

end RegistryRecovery
end Mewtual
