import Mewtual.Registry.Recovery

/-!
# Keeping a replaced registry bucket

A registry bucket that is replaced is kept whole: the document of its seed and accepted operations,
and the operations themselves. The caps of the epoch on its operations leave room for the typed
payload in every recovery snapshot, so that nothing has to be left out. Of the two libraries it is
assumed that a JSON text holds its texts, and that a document has only keys that were written.

Main results:

- Theorem {lit}`RegistrySource.length_outer_le`: the snapshot of a source within the caps fits.
- Theorem {lit}`RegistrySource.replacement_lossless`: a source is kept, and read back unchanged.
-/

namespace Mewtual

open Std

namespace RegistryRecovery

section Outer

theorem length_put_outer (projection : RegistryProjection) (opening : Option Receipt)
    (operations : ExtTreeMap Hash32 LocalIntent) (reason : RecoveryReason) (payload : Bytes) :
    (outer projection opening operations reason payload).put.length =
      37 + projection.document.logicalKey.length + payload.length +
        (if opening.isSome then 36 else 0) + 36 * operations.size := by
  rw [← RecoverySnapshot.sum_charges]
  cases opening <;> simp [RecoverySnapshot.charges, outer] <;> omega

theorem outer_wellFormed {projection : RegistryProjection} {opening : Option Receipt}
    {operations : ExtTreeMap Hash32 LocalIntent} {reason : RecoveryReason} {payload : Bytes}
    (hdocument : projection.document.Bounded) (hoperations : operations.size ≤ maxEpochOperations)
    (hsize : (outer projection opening operations reason payload).put.length ≤
      maxRecoverySnapshotBytes) :
    (outer projection opening operations reason payload).WellFormed := { hdocument with
  managed := rfl
  tombstones_le := Nat.zero_le _
  elements_le := Nat.zero_le _
  conflicts_le := Nat.zero_le _
  appliedOps_le := by
    show operations.keys.length ≤ maxEpochOperations
    rw [ExtTreeMap.length_keys]
    exact hoperations
  conflict_bounded := nofun
  tombstones_lt := .nil
  elements_lt := .nil
  conflicts_lt := .nil
  values_lt := nofun
  appliedOps_lt := by
    have hordered : operations.keys.Pairwise fun left right => compare left right = .lt :=
      ExtTreeMap.ordered_keys
    exact (hordered.imp EpochGate.hash_lt_of_compare).isChain
  size := hsize }

end Outer

section Whole

variable [Crypto] {json : JsonLibrary} {projection : RegistryProjection}
  {opening : Option Receipt} {operations : ExtTreeMap Hash32 LocalIntent} {reason : RecoveryReason}

/-- The payload of a source. -/
def typedOf (projection : RegistryProjection) (opening : Option Receipt)
    (operations : ExtTreeMap Hash32 LocalIntent) : RegistryRecovery :=
  ⟨projection, (opening.map Receipt.hash).getD 0, operations⟩

/-- The snapshot of a source with its payload. -/
def kept (projection : RegistryProjection) (opening : Option Receipt)
    (operations : ExtTreeMap Hash32 LocalIntent) (reason : RecoveryReason) : RecoverySnapshot :=
  outer projection opening operations reason (typedOf projection opening operations).put

theorem WellFormed.document {typed : RegistryRecovery} (h : typed.WellFormed json) :
    typed.projection.document.Bounded := by
  obtain ⟨hsame, hbounded⟩ := LogicalDocument.new_eq_ok.mp h.shape.document
  rw [hsame]
  exact hbounded

/-- A well-formed payload that fits is kept. -/
theorem snapshotForReplacement_eq
    (h : (typedOf projection opening operations).WellFormed json)
    (hreason : wholeSource reason = true) (hkept : ¬ NothingKept projection operations)
    (hsize : (kept projection opening operations reason).put.length ≤ maxRecoverySnapshotBytes) :
    snapshotForReplacement json projection opening operations reason =
      .ok (some (kept projection opening operations reason)) := by
  have hlength := length_put_outer projection opening operations reason
  have hdocument : projection.document.Bounded := h.document
  have hoperations : operations.size ≤ maxEpochOperations := h.operations
  have hwhole : (kept projection opening operations reason).WellFormed :=
    outer_wellFormed hdocument hoperations hsize
  unfold kept at hsize
  rw [hlength] at hsize
  have hempty : (outer projection opening operations reason []).WellFormed := by
    refine outer_wellFormed hdocument hoperations ?_
    rw [hlength, List.length_nil]
    omega
  have hfits : (typedOf projection opening operations).put.length ≤
      maxRecoverySnapshotBytes - (outer projection opening operations reason []).put.length := by
    rw [hlength, List.length_nil]
    omega
  have hencode : (typedOf projection opening operations).encode json (maxRecoverySnapshotBytes -
      (outer projection opening operations reason []).put.length) =
      .ok (typedOf projection opening operations).put := encode_eq h hfits
  unfold snapshotForReplacement
  rw [if_neg (Bool.not_eq_false _ ▸ hreason), if_neg hkept,
    RecoverySnapshot.encode_eq_ok.mpr ⟨hempty, rfl⟩, ok_bind]
  unfold kept at hwhole ⊢
  unfold typedOf at hencode hwhole ⊢
  dsimp only
  rw [hencode, ok_bind, RecoverySnapshot.encode_eq_ok.mpr ⟨hwhole, rfl⟩]
  rfl

theorem kept_inScope (h : (typedOf projection opening operations).WellFormed json)
    (hreason : wholeSource reason = true) (hopening : opening = none ↔ projection.epoch = 0) :
    ¬ OutOfScope (kept projection opening operations reason) projection.document := by
  rintro (hne | hne | hepoch | ⟨-, hpart⟩ | hbase | hoverflow | hne | hne | hne)
  · exact hne rfl
  · exact hne rfl
  · exact h.shape.epoch hepoch
  · have hpart : wholeSource reason = false := hpart
    rw [hreason] at hpart
    cases hpart
  · refine hbase ?_
    show projection.epoch = 0 ↔ opening.map Receipt.closeRecordHash = none
    rw [Option.map_eq_none_iff]
    exact hopening.symm
  · have hoverflow : reason = .conflictOverflow := hoverflow
    rw [hoverflow] at hreason
    cases hreason
  · exact hne rfl
  · exact hne rfl
  · exact hne rfl

theorem kept_matched (hreason : wholeSource reason = true)
    (hkept : ¬ NothingKept projection operations)
    (hopening : opening = none ↔ projection.epoch = 0)
    (hhash : ∀ receipt ∈ opening, receipt.hash ≠ 0) :
    ¬ (typedOf projection opening operations).Mismatched
      (kept projection opening operations reason) := by
  rintro (⟨hoperations, hoverflow, htombstones, hpointers⟩ | ⟨-, hne | hne⟩)
  · rcases hpointers with hpart | hpointers
    · have hpart : wholeSource reason = false := hpart
      rw [hreason] at hpart
      cases hpart
    · exact hkept ⟨hoperations, hpointers, hoverflow, htombstones⟩
  · exact hne rfl
  · refine hne ?_
    show projection.epoch = 0 ↔ (opening.map Receipt.hash).getD 0 = 0
    rw [← hopening]
    cases opening with
    | none => exact iff_of_true rfl rfl
    | some receipt => exact iff_of_false (Option.some_ne_none receipt) (hhash receipt rfl)

/-- What is kept is read back. -/
theorem fromSnapshot_eq (h : (typedOf projection opening operations).WellFormed json)
    (hreason : wholeSource reason = true) (hkept : ¬ NothingKept projection operations)
    (hsize : (kept projection opening operations reason).put.length ≤ maxRecoverySnapshotBytes)
    (hopening : opening = none ↔ projection.epoch = 0)
    (hhash : ∀ receipt ∈ opening, receipt.hash ≠ 0) :
    fromSnapshot json (kept projection opening operations reason) projection.document
      projection.bucket = .ok (typedOf projection opening operations) := by
  have hdocument : projection.document.Bounded := h.document
  have hserver : ¬ (projection.document.serverId = [] ∨
      projection.document.serverId.length > 256) :=
    not_or.mpr ⟨hdocument.serverId_ne, Nat.not_lt.mpr hdocument.serverId_le⟩
  have hregistry : registryDocument projection.document.serverId projection.bucket =
      .ok projection.document := h.shape.document
  have hscope := kept_inScope h hreason hopening
  have hwhole : (kept projection opening operations reason).WellFormed :=
    outer_wellFormed hdocument h.operations hsize
  have hread : Reader.whole .malformed (readPayload json projection.document projection.bucket
      (kept projection opening operations reason).epoch
      (kept projection opening operations reason).appliedOps)
      (kept projection opening operations reason).projection =
      .ok (typedOf projection opening operations) :=
    (readPayload_put h).whole .malformed
  have hpayload : (typedOf projection opening operations).put.length ≤
      maxRecoverySnapshotBytes := by
    unfold kept at hsize
    rw [length_put_outer] at hsize
    omega
  unfold fromSnapshot
  rw [if_neg hserver, hregistry, ok_bind, if_neg (not_or.mpr ⟨not_not.mpr rfl, hscope⟩),
    RecoverySnapshot.encode_eq_ok.mpr ⟨hwhole, rfl⟩, hread]
  have hagain := encode_eq h hpayload
  show (if (typedOf projection opening operations).Mismatched _ then _ else _) = _
  rw [if_neg (kept_matched hreason hkept hopening hhash), hagain, ok_bind]
  exact if_neg (not_not.mpr rfl)

end Whole

end RegistryRecovery

/-! ## Sources -/

/-- The domain operation of an operation that carries one. -/
def SignedOp.parsedDomainOp (op : SignedOp) : Except ReplError (Option DomainOp) :=
  match op.domainOp with
  | none => .ok none
  | some bytes => (DomainOp.decode bytes).map some

/-- A registry bucket that is replaced, with its document in the document library. -/
structure RegistrySource (Doc : Type) where
  document : LogicalDocument
  bucket : UInt8
  epoch : UInt64
  /-- The receipt whose checkpoint opened the epoch. -/
  opening : Option Receipt
  /-- What that checkpoint holds. -/
  seed : Option RegistryProjection
  doc : Doc
  log : List SignedOp

namespace RegistrySource

variable {Doc : Type}

/-- Add the operation of a log entry under its identity. -/
def addIntent [Crypto] (operations : ExtTreeMap Hash32 LocalIntent) (op : SignedOp) :
    Except ReplError (ExtTreeMap Hash32 LocalIntent) := do
  match ← op.parsedDomainOp with
  | none => .error .malformed
  | some operation =>
    .ok (operations.insert (operation.id op.authorDevice) ⟨op.authorDevice, operation⟩)

/-- All operations of the log. -/
def operations [Crypto] (source : RegistrySource Doc) :
    Except ReplError (ExtTreeMap Hash32 LocalIntent) :=
  source.log.foldlM addIntent ∅

/-- What the document is read as. -/
def projection [Crypto] (library : DocumentLibrary Doc) (source : RegistrySource Doc) :
    Except ReplError RegistryProjection :=
  RegistryProjection.read source.document source.bucket source.epoch (library.rootMap source.doc)

/-- The bucket's operation that a log entry carries. -/
def registryOp [Crypto] (json : JsonLibrary) (source : RegistrySource Doc) (op : SignedOp) :
    Option RegistryOp :=
  match op.parsedDomainOp with
  | .ok (some domain) => (validateDomain json source.document source.bucket domain).toOption
  | _ => none

/-- What admission has checked of a source: the epoch is opened by its receipt and seed, every
change is that of the seed or of an accepted operation, and the operations are within the caps of
the epoch. -/
structure Accepted [Crypto] (json : JsonLibrary) (library : DocumentLibrary Doc)
    (source : RegistrySource Doc) : Prop where
  opened : source.opening = none ↔ source.epoch = 0
  seed : ∀ seed ∈ source.seed, seed.pointers.size ≤ maxRegistryPointers
  changes : ∀ change ∈ library.changes source.doc,
    (∃ seed ∈ source.seed, ∀ op ∈ change.operations, ∀ key, op.key = some key →
      key ∈ (seed.seedDoc source.epoch).values) ∨
    ∃ op ∈ source.log, ∃ domain before currentView, op.parsedDomainOp = .ok (some domain) ∧
      validateRegistryChange json library source.document source.bucket source.epoch domain change
        before currentView = .ok ()
  operations : ∀ op ∈ source.log, ∃ domain registryOp, op.parsedDomainOp = .ok (some domain) ∧
    validateDomain json source.document source.bucket domain = .ok registryOp
  count : source.log.length ≤ maxEpochOperations
  lengths : ∀ op ∈ source.log, op.encode.length ≤ maxSignedEpochOpBytes
  bytes : (source.log.map fun op => op.encode.length).sum ≤ maxEpochBytes

/-! ## The operations of a log -/

theorem parsedDomainOp_eq_ok {op : SignedOp} {domain : DomainOp}
    (h : op.parsedDomainOp = .ok (some domain)) :
    domain.Encodable ∧ op.domainOp = some domain.bytes := by
  unfold SignedOp.parsedDomainOp at h
  split at h
  · cases h
  · rename_i bytes hbytes
    cases hdecode : DomainOp.decode bytes with
    | error error =>
      rw [hdecode] at h
      cases h
    | ok found =>
      rw [hdecode] at h
      cases h
      obtain ⟨hencodable, hsame⟩ :=
        DomainOp.encode_eq_ok.mp (DomainOp.encode_of_decode hdecode)
      rw [hbytes, hsame]
      exact ⟨hencodable, rfl⟩

/-- What an intent takes in a snapshot, with its identity among the applied ones. -/
def intentCost (intent : LocalIntent) : Nat := 36 + 4 + intent.operation.bytes.length + 36

/-- What a log entry's intent takes. -/
def opCost (op : SignedOp) : Nat :=
  36 + 4 + (op.domainOp.map List.length).getD 0 + 36

/-- The operations found in a log. -/
structure Gathered [Crypto] (log : List SignedOp) (operations : ExtTreeMap Hash32 LocalIntent) :
    Prop where
  size : operations.size ≤ log.length
  cost : ((treeValues operations).map intentCost).sum ≤ (log.map opCost).sum
  keyed : ∀ (id : Hash32) (intent : LocalIntent), operations[id]? = some intent → intent.id = id
  logged : ∀ intent ∈ treeValues operations, ∃ op ∈ log,
    op.parsedDomainOp = .ok (some intent.operation)

theorem Gathered.insert [Crypto] {log : List SignedOp}
    {operations : ExtTreeMap Hash32 LocalIntent} (h : Gathered log operations) {op : SignedOp}
    {domain : DomainOp} (hop : op.parsedDomainOp = .ok (some domain)) :
    Gathered (log ++ [op])
      (operations.insert (domain.id op.authorDevice) ⟨op.authorDevice, domain⟩) where
  size := by
    have hinsert : (operations.insert (domain.id op.authorDevice)
        ⟨op.authorDevice, domain⟩).size ≤ operations.size + 1 := ExtTreeMap.size_insert_le
    have hsize := h.size
    rw [List.length_append, List.length_singleton]
    omega
  cost := by
    have hsum := sum_treeValues_insert operations (domain.id op.authorDevice)
      ⟨op.authorDevice, domain⟩ intentCost
    have hcost : intentCost ⟨op.authorDevice, domain⟩ = opCost op := by
      rw [opCost, (parsedDomainOp_eq_ok hop).2]
      rfl
    have hold := h.cost
    rw [List.map_append, List.sum_append, List.map_singleton, List.sum_singleton]
    omega
  keyed := by
    intro id intent hintent
    rcases of_getElem?_insert hintent with ⟨hid, rfl⟩ | hold
    · exact hid
    · exact h.keyed id intent hold
  logged := by
    intro intent hintent
    obtain ⟨id, hid⟩ := mem_treeValues.mp hintent
    rcases of_getElem?_insert hid with ⟨-, rfl⟩ | hid
    · exact ⟨op, List.mem_append_right _ List.mem_cons_self, hop⟩
    · obtain ⟨found, hfound, hparsed⟩ := h.logged intent (mem_treeValues.mpr ⟨id, hid⟩)
      exact ⟨found, List.mem_append_left _ hfound, hparsed⟩

/-- Every log of operations is gathered. -/
theorem exists_operations [Crypto] {before log : List SignedOp}
    {start : ExtTreeMap Hash32 LocalIntent} (hstart : Gathered before start)
    (hlog : ∀ op ∈ log, ∃ domain, op.parsedDomainOp = .ok (some domain)) :
    ∃ operations, log.foldlM addIntent start = .ok operations ∧
      Gathered (before ++ log) operations := by
  induction log generalizing before start with
  | nil =>
    rw [List.append_nil]
    exact ⟨start, rfl, hstart⟩
  | cons op log ih =>
    obtain ⟨domain, hdomain⟩ := hlog op List.mem_cons_self
    obtain ⟨operations, hoperations, hgathered⟩ := ih (hstart.insert hdomain)
      fun other hother => hlog other (List.mem_cons_of_mem op hother)
    refine ⟨operations, ?_, ?_⟩
    · rw [List.foldlM_cons, addIntent, hdomain]
      exact hoperations
    · rw [List.append_assoc] at hgathered
      exact hgathered

theorem Gathered.empty [Crypto] : Gathered [] ∅ where
  size := Nat.le_refl _
  cost := Nat.le_refl _
  keyed := fun id intent h => by simp at h
  logged := fun intent h => by simp at h

/-! ## The keys of the projection -/

/-- All keys of a projection. -/
def keys (projection : RegistryProjection) : List PointerKey :=
  projection.pointers.keys ++ (projection.overflow.keys ++ projection.tombstones.toList)

theorem mem_keys {projection : RegistryProjection} {key : PointerKey} :
    key ∈ keys projection ↔ key ∈ projection.pointers ∨ key ∈ projection.overflow ∨
      key ∈ projection.tombstones := by
  unfold keys
  rw [List.mem_append, List.mem_append, ExtTreeMap.mem_keys, ExtTreeMap.mem_keys,
    ExtTreeSet.mem_toList]

theorem nodup_keys [Crypto] {projection : RegistryProjection} (h : projection.WellShaped) :
    (keys projection).Nodup := by
  unfold keys
  refine List.nodup_append'.mpr ⟨ExtTreeMap.nodup_keys, List.nodup_append'.mpr
    ⟨ExtTreeMap.nodup_keys, nodup_setToList _, ?_⟩, ?_⟩
  · intro key hoverflow htombstone
    exact h.live key (.inr (ExtTreeMap.mem_keys.mp hoverflow)) (ExtTreeSet.mem_toList.mp htombstone)
  · intro key hpointer hother
    have hpointer := ExtTreeMap.mem_keys.mp hpointer
    rcases List.mem_append.mp hother with hoverflow | htombstone
    · exact h.disjoint key ⟨hpointer, ExtTreeMap.mem_keys.mp hoverflow⟩
    · exact h.live key (.inl hpointer) (ExtTreeSet.mem_toList.mp htombstone)

section Source

variable [Crypto] {json : JsonLibrary} {library : DocumentLibrary Doc} {source : RegistrySource Doc}
  {projection : RegistryProjection} {operations : ExtTreeMap Hash32 LocalIntent}

/-- The keys of the seed. -/
def seedKeys (source : RegistrySource Doc) : List PointerKey :=
  (source.seed.map fun seed => seed.pointers.keys).getD []

/-- The keys that the operations of the log write. -/
def logKeys (json : JsonLibrary) (source : RegistrySource Doc) : List PointerKey :=
  source.log.filterMap fun op => (source.registryOp json op).map RegistryOp.key

/-- Every key comes from the seed or from an operation. -/
theorem keys_subset (hlibrary : library.Writes) (h : source.Accepted json library)
    (hread : source.projection library = .ok projection) :
    keys projection ⊆ seedKeys source ++ logKeys json source := by
  intro key hkey
  obtain ⟨-, kind, hfield⟩ := RegistryProjection.field_of_read hread (mem_keys.mp hkey)
  obtain ⟨change, hchange, op, hop, -, hwrites⟩ := hlibrary source.doc _ hfield
  rcases h.changes change hchange with ⟨seed, hseed, hputs⟩ |
    ⟨logged, hlogged, domain, before, currentView, hdomain, hvalid⟩
  · refine List.mem_append_left _ ?_
    obtain ⟨values, hvalues⟩ := mem_iff_getElem?.mp (hputs op hop _ hwrites)
    obtain ⟨epoch, hepoch, -⟩ := RegistryProjection.getElem?_seedDoc_fieldKey.mp hvalues
    have hseed : source.seed = some seed := hseed
    rw [seedKeys, hseed, Option.map_some, Option.getD_some, ExtTreeMap.mem_keys,
      ExtTreeMap.mem_iff_isSome_getElem?, hepoch]
    rfl
  · refine List.mem_append_right _ ?_
    obtain ⟨operation, author, hoperation, -, hallowed⟩ := validateRegistryChange_writes hvalid
    obtain ⟨scalar, hscalar⟩ := hallowed op hop _ hwrites
    refine List.mem_filterMap.mpr ⟨logged, hlogged, ?_⟩
    rw [registryOp, hdomain]
    dsimp only
    rw [hoperation, fieldKey_of_allowed hscalar]
    rfl

/-- What a key takes in a payload. -/
def keyCost (key : PointerKey) : Nat := 2 + 4 + key.key.length + 8

omit [Crypto] in
/-- A list without duplicates inside another one costs no more. -/
theorem sum_le_of_subset {left right : List PointerKey} (hdistinct : left.Nodup)
    (hsubset : left ⊆ right) (weight : PointerKey → Nat) :
    (left.map weight).sum ≤ (right.map weight).sum := by
  obtain ⟨middle, hperm, hsublist⟩ := hdistinct.subperm hsubset
  have hsum : (middle.map weight).sum = (left.map weight).sum := (hperm.map weight).sum_eq
  rw [← hsum]
  exact (hsublist.map weight).sum_le_sum fun _ _ => Nat.zero_le _

theorem length_logKeys_le (json : JsonLibrary) (source : RegistrySource Doc) :
    (logKeys json source).length ≤ source.log.length :=
  List.length_filterMap_le _ _

theorem length_seedKeys_le (h : source.Accepted json library) :
    (seedKeys source).length ≤ maxRegistryPointers := by
  unfold seedKeys
  cases hseed : source.seed with
  | none => exact Nat.zero_le _
  | some seed =>
    rw [Option.map_some, Option.getD_some, ExtTreeMap.length_keys]
    exact h.seed seed hseed

theorem sum_seedKeys_le (h : source.Accepted json library) :
    ((seedKeys source).map keyCost).sum ≤ maxRegistryPointers * 206 := by
  have hsum : ((seedKeys source).map keyCost).sum ≤ (seedKeys source).length * 206 := by
    have hlength : ((seedKeys source).map keyCost).length = (seedKeys source).length :=
      List.length_map _
    rw [← hlength]
    refine List.sum_le_card_nsmul _ 206 fun cost hcost => ?_
    obtain ⟨key, -, rfl⟩ := List.mem_map.mp hcost
    have hle := key.key_le
    unfold keyCost
    omega
  exact hsum.trans (Nat.mul_le_mul_right 206 (length_seedKeys_le h))

/-! ## Everything fits -/

/-- A log entry is at least three quarters of what its operation and its key take. -/
theorem opCost_le (hjson : json.Quotes) (hdocument : source.document.logicalKey.length = 32)
    {op : SignedOp}
    {domain : DomainOp} {registryOp : RegistryOp} (hparsed : op.parsedDomainOp = .ok (some domain))
    (hvalid : validateDomain json source.document source.bucket domain = .ok registryOp) :
    3 * (opCost op + keyCost registryOp.key) ≤ 4 * op.encode.length := by
  obtain ⟨-, hbytes⟩ := parsedDomainOp_eq_ok hparsed
  obtain ⟨-, hkey, hbody, -⟩ := validateDomain_eq_ok hvalid
  have hlength := RegistryOp.length_encode_le hjson hbody
  have hle := registryOp.key.key_le
  rw [SignedOp.length_encode, opCost, keyCost, hbytes, Option.map_some, Option.map_some,
    Option.getD_some, Option.getD_some, DomainOp.length_bytes, hkey, hdocument]
  omega

theorem sum_log_le (hjson : json.Quotes) (hdocument : source.document.logicalKey.length = 32)
    {log : List SignedOp}
    (hlog : ∀ op ∈ log, ∃ domain registryOp, op.parsedDomainOp = .ok (some domain) ∧
      validateDomain json source.document source.bucket domain = .ok registryOp) :
    3 * ((log.map opCost).sum + ((log.filterMap fun op =>
        (source.registryOp json op).map RegistryOp.key).map keyCost).sum) ≤
      4 * (log.map fun op => op.encode.length).sum := by
  induction log with
  | nil => exact Nat.le_refl _
  | cons op log ih =>
    have hrest := ih fun other hother => hlog other (List.mem_cons_of_mem op hother)
    obtain ⟨domain, found, hparsed, hvalid⟩ := hlog op List.mem_cons_self
    have hop := opCost_le hjson hdocument hparsed hvalid
    have hfound : (source.registryOp json op).map RegistryOp.key = some found.key := by
      rw [registryOp, hparsed]
      dsimp only
      rw [hvalid]
      rfl
    rw [List.filterMap_cons, hfound]
    simp only [List.map_cons, List.sum_cons]
    omega

omit [Crypto] in
theorem sum_keys (projection : RegistryProjection) :
    ((projection.pointers.toList ++ projection.overflow.toList).map fun entry =>
        2 + 4 + entry.1.key.length + 8).sum +
      (projection.tombstones.toList.map fun key => 2 + 4 + key.key.length).sum ≤
      ((keys projection).map keyCost).sum := by
  have hentries (map : ExtTreeMap PointerKey UInt64) :
      (map.toList.map fun entry => 2 + 4 + entry.1.key.length + 8).sum =
        (map.keys.map keyCost).sum := by
    rw [← ExtTreeMap.map_fst_toList_eq_keys, List.map_map]
    rfl
  have htombstones : (projection.tombstones.toList.map fun key => 2 + 4 + key.key.length).sum ≤
      (projection.tombstones.toList.map keyCost).sum := by
    refine List.sum_le_sum fun key _ => ?_
    unfold keyCost
    omega
  unfold keys
  rw [List.map_append, List.sum_append, hentries, hentries, List.map_append, List.sum_append,
    List.map_append, List.sum_append]
  omega

/-- The snapshot of a source within the caps fits. -/
theorem length_outer_le (hjson : json.Quotes) (hlibrary : library.Writes)
    (h : source.Accepted json library) (hread : source.projection library = .ok projection)
    (hgathered : Gathered source.log operations) (reason : RecoveryReason) :
    (RegistryRecovery.kept projection source.opening operations reason).put.length ≤
      maxRecoverySnapshotBytes := by
  have hshape := RegistryProjection.read_wellShaped hread
  obtain ⟨hsame, hbounded⟩ := LogicalDocument.new_eq_ok.mp hshape.document
  obtain ⟨-, -, fields, -, -, rfl⟩ := RegistryProjection.read_eq_ok.mp hread
  have hkey : source.document.logicalKey.length = 32 := by
    have hlogical := congrArg LogicalDocument.logicalKey hsame
    rw [show source.document.logicalKey = _ from hlogical, length_fixedBytes]
  have hserver : source.document.serverId.length ≤ 256 := hbounded.serverId_le
  have hkeys := sum_le_of_subset (nodup_keys hshape) (keys_subset hlibrary h hread) keyCost
  rw [List.map_append, List.sum_append] at hkeys
  have hseed := sum_seedKeys_le h
  have hlog := sum_log_le hjson hkey h.operations
  have hbytes := h.bytes
  have hcost := hgathered.cost
  have hintents : ((treeValues operations).map intentCost).sum =
      ((treeValues operations).map fun intent =>
        36 + 4 + intent.operation.bytes.length).sum + 36 * operations.size := by
    rw [← length_treeValues operations]
    induction treeValues operations with
    | nil => rfl
    | cons intent intents ih =>
      simp only [List.map_cons, List.sum_cons, List.length_cons, intentCost]
      omega
  have htyped := sum_keys ⟨source.document, source.bucket, source.epoch,
    (RegistryScan.gather fields).split.1, (RegistryScan.gather fields).split.2,
    (RegistryScan.gather fields).tombstones⟩
  have hopening : (if source.opening.isSome then 36 else 0) ≤ 36 := by
    split <;> omega
  unfold RegistryRecovery.kept
  rw [RegistryRecovery.length_put_outer, RegistryRecovery.length_put]
  unfold RegistryRecovery.typedOf logKeys at *
  dsimp only at *
  unfold maxRecoverySnapshotBytes maxEpochBytes maxRegistryPointers at *
  omega

/-- The payload of a source within the caps is well-formed. -/
theorem typedOf_wellFormed (hlibrary : library.Writes) (h : source.Accepted json library)
    (hread : source.projection library = .ok projection)
    (hgathered : Gathered source.log operations) :
    (RegistryRecovery.typedOf projection source.opening operations).WellFormed json where
  shape := RegistryProjection.read_wellShaped hread
  bucket := by
    intro key hkey
    obtain ⟨-, -, fields, -, -, rfl⟩ := RegistryProjection.read_eq_ok.mp hread
    exact (RegistryProjection.field_of_read hread hkey).1
  keys := by
    have hsubperm := (nodup_keys (RegistryProjection.read_wellShaped hread)).subperm
      (keys_subset hlibrary h hread)
    have hlength := hsubperm.length_le
    have hseed := length_seedKeys_le h
    have hlog := length_logKeys_le json source
    have hcount := h.count
    unfold keys at hlength
    rw [List.length_append, List.length_append, ExtTreeMap.length_keys, ExtTreeMap.length_keys,
      ExtTreeSet.length_toList, List.length_append] at hlength
    unfold maxRecoveryKeys
    show projection.pointers.size + projection.overflow.size + projection.tombstones.size ≤ _
    omega
  operations := hgathered.size.trans h.count
  keyed := hgathered.keyed
  valid := by
    intro intent hintent
    obtain ⟨op, hop, hparsed⟩ := hgathered.logged intent hintent
    obtain ⟨domain, registryOp, hdomain, hvalid⟩ := h.operations op hop
    rw [hparsed] at hdomain
    cases hdomain
    refine ⟨(parsedDomainOp_eq_ok hparsed).1, registryOp, ?_⟩
    obtain ⟨-, -, fields, -, -, rfl⟩ := RegistryProjection.read_eq_ok.mp hread
    exact hvalid

/-- A source within the caps of its epoch is kept in one snapshot, unless there is nothing to keep:
the size computed before writing is the length written, the snapshot fits, and it is read back as
the same projection, receipt hash and operations. -/
theorem replacement_lossless (hjson : json.Quotes) (hlibrary : library.Writes)
    (h : source.Accepted json library) (hhash : ∀ receipt ∈ source.opening, receipt.hash ≠ 0)
    {projection : RegistryProjection}
    (hread : source.projection library = .ok projection) {reason : RecoveryReason}
    (hreason : reason = .rewound ∨ reason = .repair) :
    ∃ operations, source.operations = .ok operations ∧
      ∃ kept, RegistryRecovery.snapshotForReplacement json projection source.opening operations
          reason = .ok kept ∧
        (kept = none ↔ RegistryRecovery.NothingKept projection operations) ∧
        ∀ snapshot ∈ kept,
          (∃ bytes, snapshot.encode = .ok bytes ∧ bytes.length ≤ maxRecoverySnapshotBytes) ∧
          RegistryRecovery.fromSnapshot json snapshot source.document source.bucket =
            .ok ⟨projection, (source.opening.map Receipt.hash).getD 0, operations⟩ ∧
          RegistryRecovery.size json
              ⟨projection, (source.opening.map Receipt.hash).getD 0, operations⟩ =
            .ok snapshot.projection.length := by
  have hwhole : RegistryRecovery.wholeSource reason = true := decide_eq_true hreason
  obtain ⟨operations, hoperations, hgathered⟩ := exists_operations Gathered.empty fun op hop => by
    obtain ⟨domain, -, hdomain, -⟩ := h.operations op hop
    exact ⟨domain, hdomain⟩
  rw [List.nil_append] at hgathered
  refine ⟨operations, hoperations, ?_⟩
  have htyped := typedOf_wellFormed hlibrary h hread hgathered
  have hsize := length_outer_le hjson hlibrary h hread hgathered reason
  have hopening : source.opening = none ↔ projection.epoch = 0 := by
    obtain ⟨-, -, fields, -, -, rfl⟩ := RegistryProjection.read_eq_ok.mp hread
    exact h.opened
  by_cases hkept : RegistryRecovery.NothingKept projection operations
  · refine ⟨none, ?_, iff_of_true rfl hkept, forall_mem_none⟩
    unfold RegistryRecovery.snapshotForReplacement
    rw [if_neg (Bool.not_eq_false _ ▸ hwhole), if_pos hkept]
  · refine ⟨some (RegistryRecovery.kept projection source.opening operations reason),
      RegistryRecovery.snapshotForReplacement_eq htyped hwhole hkept hsize,
      iff_of_false (Option.some_ne_none _) hkept, fun snapshot hsnapshot => ?_⟩
    cases hsnapshot
    have hback := RegistryRecovery.fromSnapshot_eq htyped hwhole hkept hsize hopening hhash
    obtain ⟨-, -, fields, -, -, rfl⟩ := RegistryProjection.read_eq_ok.mp hread
    exact ⟨⟨_, RecoverySnapshot.encode_eq_ok.mpr ⟨RegistryRecovery.outer_wellFormed
      htyped.document htyped.operations hsize, rfl⟩, hsize⟩, hback,
      RegistryRecovery.size_eq htyped⟩

end Source

/-! ## One pointer in the first epoch -/

/-- The operation of the sample: it puts one pointer. -/
def sampleOp : RegistryOp := .put RegistryProjection.samplePointer 5

/-- The name of a field and its text, if it has one, with room for the marks around them. -/
def sampleField (field : Bytes × Json) : Bytes :=
  field.1 ++ (field.2.text?.getD [] ++ List.replicate 7 0)

/-- A JSON library that writes a map so, and parses everything as the body of the sample. -/
def sampleJson : JsonLibrary where
  fromSlice _ := some (.object sampleOp.fields)
  toVec fields := some (fields.map sampleField).flatten

theorem sampleJson_quotes : sampleJson.Quotes := by
  intro fields bytes _ hbytes name value hfield
  cases hbytes
  have hmem : sampleField (name, .text value) ∈ fields.map sampleField := List.mem_map_of_mem hfield
  have hpart := (List.sublist_flatten_of_mem hmem).length_le
  rw [sampleField, List.length_append, List.length_append, List.length_replicate] at hpart
  exact (Nat.add_assoc _ _ _).trans_le hpart

/-- The domain operation that carries it. -/
def sampleDomain : DomainOp :=
  ⟨0, .docRegistry, RegistryProjection.sampleDocument.logicalKey,
    (sampleOp.encode sampleJson).toOption.getD []⟩

/-- The change of the operation: its marker, its entry and the header. -/
def sampleChange [Crypto] : Change where
  actorId := List.replicate 32 0
  deps := []
  operations := (allowedPuts RegistryProjection.sampleDocument 0 0 sampleOp
    (sampleDomain.id 0)).map fun put => ⟨true, some put.1, .put put.2, false, []⟩

/-- A document library whose only document has that change. -/
def sampleLibrary [Crypto] : DocumentLibrary Unit where
  changes _ := [sampleChange]
  hasChange _ _ := false
  rootMap _ := .written (allowedPuts RegistryProjection.sampleDocument 0 0 sampleOp
    (sampleDomain.id 0))
  getAll _ _ _ := .ok []
  get _ _ _ := .ok none

theorem sampleLibrary_writes [Crypto] : sampleLibrary.Writes := by
  intro doc key hkey
  obtain ⟨values, hvalues⟩ := mem_iff_getElem?.mp hkey
  rcases mem_of_insertAll hvalues with hmem | hempty
  · obtain ⟨put, hput, hsame⟩ := List.mem_map.mp hmem
    cases hsame
    exact ⟨sampleChange, List.mem_cons_self, _, List.mem_map_of_mem hput, rfl, rfl⟩
  · simp at hempty

/-- The bucket of the sample, in its first epoch. -/
def sampleSource [Crypto] : RegistrySource Unit where
  document := RegistryProjection.sampleDocument
  bucket := 0
  epoch := 0
  opening := none
  seed := none
  doc := ()
  log := [⟨.docRegistry, 0, 0, [], [], some sampleDomain.bytes, 0⟩]

theorem sampleSource_accepted :
    letI := RegistryProjection.zeroCrypto
    sampleSource.Accepted sampleJson sampleLibrary := by
  let : Crypto := RegistryProjection.zeroCrypto
  have hparsed : SignedOp.parsedDomainOp ⟨.docRegistry, 0, 0, [], [], some sampleDomain.bytes, 0⟩ =
      .ok (some sampleDomain) := by decide +kernel
  have hvalid : validateDomain sampleJson RegistryProjection.sampleDocument 0 sampleDomain =
      .ok sampleOp := by decide +kernel
  have hchange : validateRegistryChange sampleJson sampleLibrary RegistryProjection.sampleDocument
      0 0 sampleDomain sampleChange () true = .ok () := by decide +kernel
  refine ⟨iff_of_true rfl rfl, forall_mem_none, fun change hmem => .inr ?_, fun op hop => ?_,
    by decide, fun op hop => ?_, by decide +kernel⟩
  · rw [List.mem_singleton.mp hmem]
    exact ⟨_, List.mem_cons_self, sampleDomain, (), true, hparsed, hchange⟩
  · rw [List.mem_singleton.mp hop]
    exact ⟨sampleDomain, sampleOp, hparsed, hvalid⟩
  · rw [List.mem_singleton.mp hop]
    decide +kernel

theorem replacement_sampleSource :
    letI := RegistryProjection.zeroCrypto
    ∃ projection operations snapshot, sampleSource.projection sampleLibrary = .ok projection ∧
      sampleSource.operations = .ok operations ∧
      RegistryRecovery.snapshotForReplacement sampleJson projection none operations .rewound =
        .ok (some snapshot) ∧
      RegistryRecovery.fromSnapshot sampleJson snapshot RegistryProjection.sampleDocument 0 =
        .ok ⟨projection, 0, operations⟩ := by
  let : Crypto := RegistryProjection.zeroCrypto
  have hok : (sampleSource.projection sampleLibrary).toBool = true := by decide +kernel
  generalize hread : sampleSource.projection sampleLibrary = outcome at hok
  cases outcome with
  | error error => cases hok
  | ok projection =>
    obtain ⟨operations, hoperations, kept, hkept, hnone, hback⟩ := replacement_lossless
      sampleJson_quotes sampleLibrary_writes sampleSource_accepted forall_mem_none hread (.inl rfl)
    have hsome : sampleSource.operations.toOption.map ExtTreeMap.isEmpty = some false := by
      decide +kernel
    rw [hoperations] at hsome
    cases kept with
    | none =>
      have hempty : operations.isEmpty = true := (hnone.mp rfl).1
      rw [Except.toOption, Option.map_some, hempty] at hsome
      cases hsome
    | some snapshot =>
      exact ⟨projection, operations, snapshot, rfl, hoperations, hkept, (hback snapshot rfl).2.1⟩

end RegistrySource
end Mewtual
