import Mewtual.Epoch.SignedRecord

/-!
# Recovery snapshots

The canonical materialization of one logical document that is retained when operations are
excluded, rewound or repaired away. The encoder checks every bound and the exact size before
it writes, and the decoder accepts only the bytes that the encoder writes.

Main results:

- Theorem {lit}`RecoverySnapshot.sum_charges`: the preflight charges exactly the encoded size.
- Theorem {lit}`RecoverySnapshot.encode_eq_ok`: what the encoder accepts.
- Theorem {lit}`RecoverySnapshot.decode_snapshot_iff`: what the decoder accepts.
-/

namespace Mewtual

def maxRecoverySnapshotBytes : Nat := 6 * 1024 * 1024

def maxRecoveryItems : Nat := maxEpochOperations

def maxRecoveryConflicts : Nat := 1024

def maxConflictValues : Nat := 4

def maxRecoveryTargetBytes : Nat := 256

/-! ## Counted sections -/

/-- A run of items behind its {lit}`u32` count. -/
def putCounted {α : Type} (put : α → Bytes) (items : List α) : Bytes :=
  putU32 (UInt32.ofNat items.length) ++ items.flatMap put

/-- Read a counted run; the count is checked before anything is allocated. -/
def getCounted {α : Type} (limit : Nat) (get : Parser α) : Parser (List α) := do
  let count ← Decoder.orMalformed getU32
  if count.toNat > limit then throw .epochBound
  Reader.times get count.toNat

theorem getCounted_putCounted {α : Type} {limit : Nat} {get : Parser α} {put : α → Bytes}
    {items : List α} (hlimit : limit < 2 ^ 32) (hle : items.length ≤ limit)
    (hreads : ∀ item ∈ items, Reads get (put item) item) :
    Reads (getCounted limit get) (putCounted put items) items := by
  have hcount : (UInt32.ofNat items.length).toNat = items.length :=
    UInt32.toNat_ofNat_of_lt' (hle.trans_lt hlimit)
  intro rest
  rw [getCounted, putCounted, List.append_assoc, (getU32_putU32 _).orMalformed.run_bind, hcount,
    if_neg (Nat.not_lt.mpr hle)]
  exact Reads.times hreads rest

theorem length_putCounted {α : Type} (put : α → Bytes) (items : List α) :
    (putCounted put items).length = 4 + (items.map fun item => (put item).length).sum := by
  simp [putCounted, List.length_flatMap]

/-! ## The parts of a snapshot -/

/-- Why a bounded materialized version was retained. -/
inductive RecoveryReason where
  | excluded | rewound | conflictOverflow | repair
  deriving DecidableEq, Repr

/-- The byte that stands for a reason. -/
def RecoveryReason.tag : RecoveryReason → UInt8
  | .excluded => 1
  | .rewound => 2
  | .conflictOverflow => 3
  | .repair => 4

/-- The reason of a byte. -/
def RecoveryReason.decode (value : UInt8) : Except ReplError RecoveryReason :=
  match value.toNat with
  | 1 => .ok .excluded
  | 2 => .ok .rewound
  | 3 => .ok .conflictOverflow
  | 4 => .ok .repair
  | _ => .error .malformed

theorem RecoveryReason.decode_tag (reason : RecoveryReason) :
    RecoveryReason.decode reason.tag = .ok reason := by
  cases reason <;> rfl

/-- A random 16-byte element id. -/
abbrev ElementId := Fixed 16

def putElementId (value : ElementId) : Bytes := framed (fixedBytes value)

@[simp] theorem length_putElementId (value : ElementId) : (putElementId value).length = 20 := by
  simp [putElementId]

@[simp] theorem accepts_getElementId {value : ElementId} {input left : Bytes} :
    Accepts (getFixed 16) input value left ↔ input = putElementId value ++ left := by
  simp [accepts_getFixed, putElementId]

theorem getFixed_putElementId (value : ElementId) :
    Reads (getFixed 16) (putElementId value) value :=
  fun _ => accepts_getElementId.mpr rfl

@[simp] theorem putElementId_append_inj {first second : ElementId} {rest left : Bytes} :
    putElementId first ++ rest = putElementId second ++ left ↔ first = second ∧ rest = left :=
  Reads.append_inj_iff getFixed_putElementId

/-- One deleted collection id retained for safe intent replay. -/
structure RecoveryTombstone where
  elementId : ElementId
  opId : Hash32
  author : DeviceId
  deriving DecidableEq, Repr

namespace RecoveryTombstone

/-- The bytes of a tombstone. -/
def put (tombstone : RecoveryTombstone) : Bytes :=
  putElementId tombstone.elementId ++ (putHash tombstone.opId ++ putHash tombstone.author)

def get : Parser RecoveryTombstone := do
  let elementId ← getFixed 16
  let opId ← getFixed 32
  let author ← getFixed 32
  pure ⟨elementId, opId, author⟩

theorem length_put (tombstone : RecoveryTombstone) : tombstone.put.length = 92 := by
  simp [put]

theorem get_put (tombstone : RecoveryTombstone) : Reads get tombstone.put tombstone := by
  simp [reads_iff, get, put]

end RecoveryTombstone

/-- Ordering and authorship metadata of one collection element. -/
structure RecoveryElement where
  elementId : ElementId
  predecessor : Option ElementId
  opId : Hash32
  author : DeviceId
  deriving DecidableEq, Repr

namespace RecoveryElement

def putPredecessor : Option ElementId → Bytes
  | some predecessor => putU8 1 ++ putElementId predecessor
  | none => putU8 0

def getPredecessor : Parser (Option ElementId) := do
  let tag ← Decoder.orMalformed getU8
  if tag = 0 then pure none
  else if tag = 1 then some <$> getFixed 16
  else throw .malformed

/-- The bytes of an element. -/
def put (element : RecoveryElement) : Bytes :=
  putElementId element.elementId ++ (putPredecessor element.predecessor
    ++ (putHash element.opId ++ putHash element.author))

def get : Parser RecoveryElement := do
  let elementId ← getFixed 16
  let predecessor ← getPredecessor
  let opId ← getFixed 32
  let author ← getFixed 32
  pure ⟨elementId, predecessor, opId, author⟩

theorem getPredecessor_put (predecessor : Option ElementId) :
    Reads getPredecessor (putPredecessor predecessor) predecessor := by
  cases predecessor with
  | none => exact getOptional_none _
  | some predecessor => exact getOptional_some (getFixed_putElementId predecessor)

theorem length_put (element : RecoveryElement) :
    element.put.length = 93 + if element.predecessor.isSome then 20 else 0 := by
  cases hpredecessor : element.predecessor <;> simp [put, putPredecessor, hpredecessor]

theorem get_put (element : RecoveryElement) : Reads get element.put element := by
  simp [reads_iff, get, put, (getPredecessor_put _).accepts]

end RecoveryElement

/-- One value of a bounded conflict. -/
structure RecoveryConflictValue where
  value : Bytes
  opId : Hash32
  author : DeviceId
  deriving DecidableEq, Repr

namespace RecoveryConflictValue

/-- The bytes of a value. -/
def put (value : RecoveryConflictValue) : Bytes :=
  framed value.value ++ (putHash value.opId ++ putHash value.author)

def get : Parser RecoveryConflictValue := do
  let value ← Decoder.orMalformed getBytes
  if value.length > maxDomainOpBytes then throw .epochBound
  let opId ← getFixed 32
  let author ← getFixed 32
  pure ⟨value, opId, author⟩

theorem length_put (value : RecoveryConflictValue) :
    value.put.length = 76 + value.value.length := by
  simp only [put, List.length_append, length_framed, length_putHash]
  omega

theorem get_put {value : RecoveryConflictValue} (h : value.value.length ≤ maxDomainOpBytes) :
    Reads get value.put value := by
  have hframed : value.value.length < 2 ^ 32 := by
    unfold maxDomainOpBytes at h
    omega
  simp [reads_iff, get, put, (getBytes_framed hframed).accepts, h]

end RecoveryConflictValue

/-- A bounded conflict carried by a snapshot. -/
structure RecoveryConflict where
  target : Bytes
  values : List RecoveryConflictValue
  deriving DecidableEq, Repr

namespace RecoveryConflict

/-- The bytes of a conflict. -/
def put (conflict : RecoveryConflict) : Bytes :=
  framed conflict.target ++ (putU8 (UInt8.ofNat conflict.values.length)
    ++ conflict.values.flatMap RecoveryConflictValue.put)

def get : Parser RecoveryConflict := do
  let target ← Decoder.orMalformed getBytes
  if target = [] ∨ target.length > maxRecoveryTargetBytes then throw .epochBound
  let count ← Decoder.orMalformed getU8
  if count.toNat = 0 ∨ count.toNat > maxConflictValues then throw .epochBound
  let values ← Reader.times RecoveryConflictValue.get count.toNat
  pure ⟨target, values⟩

/-- The bounds that both directions of the codec check of a conflict. -/
structure Bounded (conflict : RecoveryConflict) : Prop where
  target_ne : conflict.target ≠ []
  target_le : conflict.target.length ≤ maxRecoveryTargetBytes
  values_ne : conflict.values ≠ []
  values_le : conflict.values.length ≤ maxConflictValues
  value_le : ∀ value ∈ conflict.values, value.value.length ≤ maxDomainOpBytes

/-- The test the encoder makes of a conflict. -/
def Unbounded (conflict : RecoveryConflict) : Prop :=
  conflict.target = [] ∨ conflict.target.length > maxRecoveryTargetBytes ∨ conflict.values = []
    ∨ conflict.values.length > maxConflictValues
    ∨ ∃ value ∈ conflict.values, value.value.length > maxDomainOpBytes

instance (conflict : RecoveryConflict) : Decidable conflict.Unbounded :=
  inferInstanceAs (Decidable (_ ∨ _))

theorem not_unbounded {conflict : RecoveryConflict} :
    ¬ conflict.Unbounded ↔ conflict.Bounded := by
  simp only [Unbounded, not_or, not_exists, not_and, Nat.not_lt]
  constructor
  · rintro ⟨h1, h2, h3, h4, h5⟩
    exact ⟨h1, h2, h3, h4, h5⟩
  · intro h
    exact ⟨h.target_ne, h.target_le, h.values_ne, h.values_le, h.value_le⟩

theorem length_put (conflict : RecoveryConflict) :
    conflict.put.length = 5 + conflict.target.length
      + (conflict.values.map fun value => value.put.length).sum := by
  simp only [put, List.length_append, length_framed, length_putU8, List.length_flatMap]
  omega

theorem get_put {conflict : RecoveryConflict} (h : conflict.Bounded) :
    Reads get conflict.put conflict := by
  have htarget := h.target_le
  have hvalues := h.values_le
  unfold maxRecoveryTargetBytes at htarget
  unfold maxConflictValues at hvalues
  have hframed := getBytes_framed (show conflict.target.length < 2 ^ 32 by omega)
  have hcount : (UInt8.ofNat conflict.values.length).toNat = conflict.values.length := by
    rw [UInt8.toNat_ofNat']
    omega
  have htimes : Reads (Reader.times RecoveryConflictValue.get conflict.values.length)
      (conflict.values.flatMap RecoveryConflictValue.put) conflict.values :=
    Reads.times fun value hmem => RecoveryConflictValue.get_put (h.value_le value hmem)
  simp [reads_iff, get, put, hframed.accepts, hcount, htimes.accepts, h.target_ne, h.target_le,
    h.values_ne, h.values_le]

end RecoveryConflict

/-! ## Snapshots -/

/-- The canonical recovery materialization of one logical document. -/
structure RecoverySnapshot where
  docType : DocType
  logicalKey : Bytes
  epoch : UInt64
  baseCloseRecordHash : Option Hash32
  reason : RecoveryReason
  projection : Bytes
  tombstones : List RecoveryTombstone
  elements : List RecoveryElement
  conflicts : List RecoveryConflict
  appliedOps : List Hash32
  deriving DecidableEq, Repr

namespace RecoverySnapshot

/-- The test the encoder makes before it charges the size. -/
def OutOfBounds (snapshot : RecoverySnapshot) : Prop :=
  isEpochManagedDocType snapshot.docType = false ∨ snapshot.logicalKey = []
    ∨ snapshot.logicalKey.length > maxLogicalKeyBytes
    ∨ snapshot.tombstones.length > maxRecoveryItems
    ∨ snapshot.elements.length > maxRecoveryItems
    ∨ snapshot.conflicts.length > maxRecoveryConflicts
    ∨ snapshot.appliedOps.length > maxRecoveryItems
    ∨ (∃ conflict ∈ snapshot.conflicts, conflict.Unbounded)
    ∨ ¬ snapshot.tombstones.IsChain (fun left right => left.elementId < right.elementId)
    ∨ ¬ snapshot.elements.IsChain (fun left right => left.elementId < right.elementId)
    ∨ ¬ snapshot.conflicts.IsChain (fun left right => left.target < right.target)
    ∨ (∃ conflict ∈ snapshot.conflicts,
        ¬ conflict.values.IsChain fun left right => left.opId < right.opId)
    ∨ ¬ snapshot.appliedOps.IsChain (· < ·)

instance (snapshot : RecoverySnapshot) : Decidable snapshot.OutOfBounds := by
  unfold OutOfBounds
  infer_instance

/-- The sizes the preflight charges, in order: fixed fields and framing, then each variable
part. A framed element id is 20 bytes and a framed hash or device id 36. -/
def charges (snapshot : RecoverySnapshot) : List Nat :=
  [1 + 2 + 4 + 8 + 1 + 1 + 4 + 4 * 4, snapshot.logicalKey.length, snapshot.projection.length]
    ++ (if snapshot.baseCloseRecordHash.isSome then [36] else [])
    ++ [snapshot.tombstones.length * 92]
    ++ snapshot.elements.map (fun element => 93 + if element.predecessor.isSome then 20 else 0)
    ++ snapshot.conflicts.flatMap (fun conflict => (5 + conflict.target.length)
        :: conflict.values.flatMap fun value => [76, value.value.length])
    ++ [snapshot.appliedOps.length * 36]

/-- Take one charge from what remains of the cap. -/
def charge (remaining bytes : Nat) : Except ReplError Nat :=
  if bytes ≤ remaining then .ok (remaining - bytes) else .error .epochBound

/-- Preflight the exact encoded size without constructing bytes. -/
def checkEncodedSize (snapshot : RecoverySnapshot) : Except ReplError Unit := do
  let _ ← snapshot.charges.foldlM charge maxRecoverySnapshotBytes
  pure ()

/-- The bytes the encoder writes once its checks have passed. No field is then too long to
be framed. -/
def put (snapshot : RecoverySnapshot) : Bytes :=
  putU8 1 ++ (putU16 snapshot.docType.tag ++ (framed snapshot.logicalKey
    ++ (putU64 snapshot.epoch ++ (putOptionalHash snapshot.baseCloseRecordHash
    ++ (putU8 snapshot.reason.tag ++ (framed snapshot.projection
    ++ (putCounted RecoveryTombstone.put snapshot.tombstones
    ++ (putCounted RecoveryElement.put snapshot.elements
    ++ (putCounted RecoveryConflict.put snapshot.conflicts
    ++ putCounted putHash snapshot.appliedOps)))))))))

/-- Canonical plaintext bytes. -/
def encode (snapshot : RecoverySnapshot) : Except ReplError Bytes := do
  if snapshot.OutOfBounds then throw .epochBound
  snapshot.checkEncodedSize
  let bytes := snapshot.put
  if bytes.length > maxRecoverySnapshotBytes then throw .epochBound
  pure bytes

/-- Stable identity used by the staged-slot state machine. -/
def id [Crypto] (snapshot : RecoverySnapshot) : Except ReplError Hash32 := do
  let bytes ← snapshot.encode
  pure (hashParts "catcoms-recovery:v1" [bytes])

/-- Read the fields of a snapshot. -/
def get : Parser RecoverySnapshot := do
  let version ← Decoder.orMalformed getU8
  if version ≠ 1 then throw .malformed
  let tag ← Decoder.orMalformed getU16
  match DocType.fromTag tag with
  | none => throw .malformed
  | some docType =>
    let logicalKey ← Decoder.orMalformed getBytes
    let epoch ← Decoder.orMalformed getU64
    let baseCloseRecordHash ← getOptionalHash
    let reasonTag ← Decoder.orMalformed getU8
    match RecoveryReason.decode reasonTag with
    | .error error => throw error
    | .ok reason =>
      let projection ← Decoder.orMalformed getBytes
      let tombstones ← getCounted maxRecoveryItems RecoveryTombstone.get
      let elements ← getCounted maxRecoveryItems RecoveryElement.get
      let conflicts ← getCounted maxRecoveryConflicts RecoveryConflict.get
      let appliedOps ← getCounted maxRecoveryItems (getFixed 32)
      Decoder.orMalformed finish
      pure ⟨docType, logicalKey, epoch, baseCloseRecordHash, reason, projection, tombstones,
        elements, conflicts, appliedOps⟩

/-- Strict decoding: what was read must encode to exactly the bytes given. -/
def decode (bytes : Bytes) : Except ReplError RecoverySnapshot := do
  if bytes.length > maxRecoverySnapshotBytes then throw .epochBound
  let snapshot ← Parser.parse get bytes
  let canonical ← snapshot.encode
  if canonical ≠ bytes then throw .malformed
  pure snapshot

/-! ## The preflight -/

theorem foldlM_charge {sizes : List Nat} {remaining left : Nat} :
    sizes.foldlM charge remaining = .ok left ↔
      sizes.sum ≤ remaining ∧ left = remaining - sizes.sum := by
  induction sizes generalizing remaining with
  | nil =>
    simp only [List.foldlM_nil, List.sum_nil, Nat.zero_le, true_and, Nat.sub_zero]
    exact ⟨fun h => (Except.ok.inj h).symm, fun h => by rw [h]; rfl⟩
  | cons size sizes ih =>
    rw [List.foldlM_cons, charge, List.sum_cons]
    by_cases hfits : size ≤ remaining
    · rw [if_pos hfits, ok_bind, ih]
      omega
    · rw [if_neg hfits, error_bind]
      exact ⟨nofun, fun h => by omega⟩

variable {snapshot : RecoverySnapshot}

theorem checkEncodedSize_eq_ok :
    snapshot.checkEncodedSize = .ok () ↔ snapshot.charges.sum ≤ maxRecoverySnapshotBytes := by
  unfold checkEncodedSize
  constructor
  · intro h
    rcases bind_eq_ok.mp h with ⟨left, hleft, -⟩
    exact (foldlM_charge.mp hleft).1
  · intro h
    rw [foldlM_charge.mpr ⟨h, rfl⟩]
    rfl

theorem length_putOptionalHash (hash : Option Hash32) :
    (putOptionalHash hash).length = 1 + if hash.isSome then 36 else 0 := by
  cases hash <;> simp [putOptionalHash]

/-- What the conflicts are charged is what their encodings take. -/
theorem sum_conflicts_charges (conflicts : List RecoveryConflict) :
    (conflicts.flatMap fun conflict => (5 + conflict.target.length)
      :: conflict.values.flatMap fun value => [76, value.value.length]).sum
      = (conflicts.map fun conflict => conflict.put.length).sum := by
  have hconflict (conflict : RecoveryConflict) : ((5 + conflict.target.length)
      :: conflict.values.flatMap fun value => [76, value.value.length]).sum
        = conflict.put.length := by
    simp [List.flatMap_def, List.sum_flatten, Function.comp_def, RecoveryConflict.length_put,
      RecoveryConflictValue.length_put]
  simp only [List.flatMap_def, List.sum_flatten, List.map_map, Function.comp_def, ← hconflict]

/-- The preflight charges exactly the encoded size. -/
theorem sum_charges (snapshot : RecoverySnapshot) :
    snapshot.charges.sum = snapshot.put.length := by
  have htombstones : (snapshot.tombstones.map fun tombstone => tombstone.put.length).sum
      = snapshot.tombstones.length * 92 := by
    simp [RecoveryTombstone.length_put]
  have happlied : (snapshot.appliedOps.map fun op => (putHash op).length).sum
      = snapshot.appliedOps.length * 36 := by
    simp
  have hbase : (if snapshot.baseCloseRecordHash.isSome then [36] else []).sum
      = if snapshot.baseCloseRecordHash.isSome then 36 else 0 := by
    split <;> rfl
  simp only [charges, put, List.sum_append, List.sum_cons, List.sum_nil, List.length_append,
    length_putU8, length_putU16, length_framed, length_putU64, length_putOptionalHash,
    length_putCounted, RecoveryElement.length_put, sum_conflicts_charges, htombstones, happlied,
    hbase]
  omega

/-! ## Round trips -/

/-- What the encoder checks of a snapshot. -/
structure WellFormed (snapshot : RecoverySnapshot) : Prop where
  managed : isEpochManagedDocType snapshot.docType = true
  logicalKey_ne : snapshot.logicalKey ≠ []
  logicalKey_le : snapshot.logicalKey.length ≤ maxLogicalKeyBytes
  tombstones_le : snapshot.tombstones.length ≤ maxRecoveryItems
  elements_le : snapshot.elements.length ≤ maxRecoveryItems
  conflicts_le : snapshot.conflicts.length ≤ maxRecoveryConflicts
  appliedOps_le : snapshot.appliedOps.length ≤ maxRecoveryItems
  conflict_bounded : ∀ conflict ∈ snapshot.conflicts, conflict.Bounded
  tombstones_lt : snapshot.tombstones.IsChain fun left right => left.elementId < right.elementId
  elements_lt : snapshot.elements.IsChain fun left right => left.elementId < right.elementId
  conflicts_lt : snapshot.conflicts.IsChain fun left right => left.target < right.target
  values_lt : ∀ conflict ∈ snapshot.conflicts,
    conflict.values.IsChain fun left right => left.opId < right.opId
  appliedOps_lt : snapshot.appliedOps.IsChain (· < ·)
  size : snapshot.put.length ≤ maxRecoverySnapshotBytes

theorem not_outOfBounds (hsize : snapshot.put.length ≤ maxRecoverySnapshotBytes) :
    ¬ snapshot.OutOfBounds ↔ snapshot.WellFormed := by
  simp only [OutOfBounds, not_or, not_exists, not_and, not_not, Nat.not_lt,
    RecoveryConflict.not_unbounded, Bool.not_eq_false]
  constructor
  · rintro ⟨h1, h2, h3, h4, h5, h6, h7, h8, h9, h10, h11, h12, h13⟩
    exact ⟨h1, h2, h3, h4, h5, h6, h7, h8, h9, h10, h11, h12, h13, hsize⟩
  · intro h
    exact ⟨h.managed, h.logicalKey_ne, h.logicalKey_le, h.tombstones_le, h.elements_le,
      h.conflicts_le, h.appliedOps_le, h.conflict_bounded, h.tombstones_lt, h.elements_lt,
      h.conflicts_lt, h.values_lt, h.appliedOps_lt⟩

/-- The encoder accepts exactly the well-formed snapshots, and writes their bytes. -/
theorem encode_eq_ok {bytes : Bytes} :
    snapshot.encode = .ok bytes ↔ snapshot.WellFormed ∧ bytes = snapshot.put := by
  constructor
  · intro h
    unfold encode at h
    rcases guard_eq_ok.mp h with ⟨hbounds, hok⟩
    rcases bind_eq_ok.mp hok with ⟨⟨⟩, hcheck, hok⟩
    rcases guard_eq_ok.mp hok with ⟨hsize, hok⟩
    cases hok
    exact ⟨(not_outOfBounds (Nat.not_lt.mp hsize)).mp hbounds, rfl⟩
  · rintro ⟨h, rfl⟩
    rw [encode, if_neg ((not_outOfBounds h.size).mpr h),
      checkEncodedSize_eq_ok.mpr (by rw [sum_charges]; exact h.size), ok_bind,
      if_neg (Nat.not_lt.mpr h.size)]
    rfl

/-- The fields of a well-formed snapshot are read back. -/
theorem WellFormed.parse_get (h : snapshot.WellFormed) :
    Parser.parse get snapshot.put = .ok snapshot := by
  have hkey : snapshot.logicalKey.length < 2 ^ 32 := by
    have hle := h.logicalKey_le
    unfold maxLogicalKeyBytes at hle
    omega
  have hprojection : snapshot.projection.length < 2 ^ 32 := by
    have hsize := h.size
    simp only [put, List.length_append, length_framed] at hsize
    unfold maxRecoverySnapshotBytes at hsize
    omega
  have htombstones := getCounted_putCounted (by decide) h.tombstones_le
    fun tombstone _ => tombstone.get_put
  have helements := getCounted_putCounted (by decide) h.elements_le
    fun element _ => element.get_put
  have hconflicts := getCounted_putCounted (by decide) h.conflicts_le
    fun conflict hmem => RecoveryConflict.get_put (h.conflict_bounded conflict hmem)
  have happlied := getCounted_putCounted (by decide) h.appliedOps_le
    fun op _ => getFixed_putHash op
  have hread : Accepts get snapshot.put snapshot [] := by
    simp [-accepts_getBytes, get, put, DocType.fromTag_tag, RecoveryReason.decode_tag,
      (getBytes_framed hkey).accepts, (getBytes_framed hprojection).accepts,
      (getOptionalHash_put _).accepts, htombstones.accepts, helements.accepts, hconflicts.accepts,
      happlied.accepts_nil, accepts_finish]
  rw [Parser.parse, hread]
  rfl

/-- An encoded snapshot is read back. -/
theorem decode_of_encode {bytes : Bytes} (h : snapshot.encode = .ok bytes) :
    decode bytes = .ok snapshot := by
  rcases encode_eq_ok.mp h with ⟨hwell, rfl⟩
  rw [decode, if_neg (Nat.not_lt.mpr hwell.size), hwell.parse_get, ok_bind, h,
    ok_bind, if_neg (not_not.mpr rfl)]
  rfl

/-- What the decoder accepts is canonical. -/
theorem encode_of_decode {bytes : Bytes} (h : decode bytes = .ok snapshot) :
    snapshot.encode = .ok bytes := by
  unfold decode at h
  rcases guard_eq_ok.mp h with ⟨-, h⟩
  rcases bind_eq_ok.mp h with ⟨parsed, -, h⟩
  rcases bind_eq_ok.mp h with ⟨canonical, hencode, h⟩
  rcases guard_eq_ok.mp h with ⟨hsame, h⟩
  cases h
  rw [hencode, not_not.mp hsame]

/-- The decoder accepts exactly the bytes of well-formed snapshots. -/
theorem decode_snapshot_iff {bytes : Bytes} :
    decode bytes = .ok snapshot ↔ snapshot.WellFormed ∧ bytes = snapshot.put := by
  rw [← encode_eq_ok]
  exact ⟨encode_of_decode, decode_of_encode⟩

end RecoverySnapshot

end Mewtual
