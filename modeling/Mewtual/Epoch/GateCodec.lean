import Mewtual.Epoch.GateInvariant

/-!
# The persisted gate

Canonical gate bytes and the restore that recomputes all accounting from the operation
metadata. The quarantine is written sorted, so a restored gate is the saved one up to the
order of the parked hashes.

Main results:

- Theorem {lit}`EpochGate.encode_eq_ok`: a valid gate always encodes.
- Theorem {lit}`EpochGate.decode_encode`: a valid gate restores, with its quarantine sorted.
-/

namespace Mewtual

open Std

/-- {lit}`u32::try_from`, reported as a bound violation. -/
def tryU32 (value : Nat) : Except ReplError UInt32 :=
  if value < 2 ^ 32 then .ok (UInt32.ofNat value) else .error .epochBound

/-- The byte that stands for a phase. -/
def EpochPhase.tag : EpochPhase → UInt8
  | .opened => 1
  | .closing => 2
  | .settled => 3
  | .fault => 4

/-- Read the byte of a phase. -/
def getPhase : Parser EpochPhase := do
  let tag ← Decoder.orMalformed getU8
  if tag = 1 then pure .opened
  else if tag = 2 then pure .closing
  else if tag = 3 then pure .settled
  else if tag = 4 then pure .fault
  else throw .malformed

theorem getPhase_tag (phase : EpochPhase) : Reads getPhase (putU8 phase.tag) phase := by
  cases phase <;> simp [reads_iff, getPhase, EpochPhase.tag]

namespace AdmittedOperation

/-- The bytes of an admitted operation. -/
def encode (op : AdmittedOperation) : Except ReplError Bytes := do
  let len ← tryU32 op.encodedLen
  pure (putHash op.opHash ++ putHash op.domainOpId ++ putHash op.author ++ putU32 len)

/-- Read an admitted operation. -/
def get : Parser AdmittedOperation := do
  let opHash ← getFixed 32
  let domainOpId ← getFixed 32
  let author ← getFixed 32
  let encodedLen ← Decoder.orMalformed getU32
  pure ⟨opHash, domainOpId, author, encodedLen.toNat⟩

/-- The bytes of an operation whose length fits its field. -/
def bytes (op : AdmittedOperation) : Bytes :=
  putHash op.opHash ++ putHash op.domainOpId ++ putHash op.author
    ++ putU32 (UInt32.ofNat op.encodedLen)

theorem encode_eq_ok {op : AdmittedOperation} (hlen : op.encodedLen < 2 ^ 32) :
    op.encode = .ok op.bytes := by
  rw [encode, tryU32, if_pos hlen]
  rfl

@[simp] theorem length_bytes (op : AdmittedOperation) : op.bytes.length = 112 := by
  simp [bytes]

theorem get_bytes {op : AdmittedOperation} (hlen : op.encodedLen < 2 ^ 32) :
    Reads get op.bytes op := by
  have hnat : (UInt32.ofNat op.encodedLen).toNat = op.encodedLen :=
    UInt32.toNat_ofNat_of_lt' hlen
  simp [reads_iff, get, bytes, hnat, Reads.inj_iff getU32_putU32]

end AdmittedOperation

namespace EpochGate

/-! ## Saving -/

/-- The parked hashes in ascending order, as they are written. -/
def sortedQuarantine (quarantine : List Hash32) : List Hash32 :=
  quarantine.insertionSort (· ≤ ·)

/-- Canonical gate state for persistence beside the epoch log. -/
def encode (gate : EpochGate) : Except ReplError Bytes := do
  let serverId ← (putBytes gate.document.serverId).mapError fun _ => .epochBound
  let logicalKey ← (putBytes gate.document.logicalKey).mapError fun _ => .epochBound
  let operationCount ← tryU32 gate.inner.accepted.length
  let operations ← gate.inner.accepted.mapM AdmittedOperation.encode
  let quarantineCount ← tryU32 gate.inner.quarantine.length
  let bytes := putU8 1 ++ serverId ++ putU16 gate.document.docType.tag ++ logicalKey
    ++ putU128 gate.docId ++ putU64 gate.epoch ++ putHash gate.inner.owner
    ++ putU8 gate.inner.phase.tag ++ putOptionalHash gate.inner.receiptHash
    ++ putU32 operationCount ++ operations.flatten
    ++ putU32 quarantineCount ++ (sortedQuarantine gate.inner.quarantine).flatMap putHash
  if bytes.length > maxEpochGateBytes then throw .epochBound
  pure bytes

/-! ## Restoring -/

/-- What a restored operation must satisfy beside the ones already restored. -/
def Restorable (prior : Option Hash32) (inner : EpochGateInner) (op : AdmittedOperation) : Prop :=
  (∀ hash ∈ prior, hash < op.opHash) ∧ 0 < op.encodedLen ∧
    op.encodedLen ≤ maxSignedEpochOpBytes ∧ inner.operations.size ≠ maxEpochOperations ∧
    inner.totalBytes + op.encodedLen ≤ maxEpochBytes ∧
    inner.operations[op.opHash]? = none ∧ inner.operationIds[op.domainOpId]? = none

instance (prior : Option Hash32) (inner : EpochGateInner) (op : AdmittedOperation) :
    Decidable (Restorable prior inner op) :=
  inferInstanceAs (Decidable (_ ∧ _))

/-- Read the operations back in order, recomputing the accounting. -/
def restoreOperations : Nat → Option Hash32 → EpochGateInner → Parser EpochGateInner
  | 0, _, inner => pure inner
  | count + 1, prior, inner => do
    let op ← AdmittedOperation.get
    if ¬ Restorable prior inner op then throw .malformed
    restoreOperations count (some op.opHash) (inner.record op)

/-- Read the parked hashes back in strictly ascending order. -/
def restoreQuarantine (operations : ExtTreeMap Hash32 AdmittedOperation) :
    Nat → List Hash32 → Parser (List Hash32)
  | 0, parked => pure parked
  | count + 1, parked => do
    let hash ← getFixed 32
    if operations.contains hash ∨ hash ∈ parked ∨ (∃ prior ∈ parked.getLast?, prior ≥ hash) then
      throw .malformed
    restoreQuarantine operations count (parked ++ [hash])

/-- The lifecycle combinations a restored gate may have. -/
def LifecycleOk (phase : EpochPhase) (receiptHash : Option Hash32) (parked : List Hash32) : Prop :=
  match phase with
  | .opened => receiptHash = none ∧ parked = []
  | .closing => receiptHash ≠ none
  | .settled => receiptHash ≠ none ∧ parked = []
  | .fault => receiptHash = none

instance (phase : EpochPhase) (receiptHash : Option Hash32) (parked : List Hash32) :
    Decidable (LifecycleOk phase receiptHash parked) :=
  match phase with
  | .opened => inferInstanceAs (Decidable (_ ∧ _))
  | .closing => inferInstanceAs (Decidable (_ ≠ _))
  | .settled => inferInstanceAs (Decidable (_ ∧ _))
  | .fault => inferInstanceAs (Decidable (_ = _))

/-- Read a gate. -/
def getGate : Parser EpochGate := do
  let version ← Decoder.orMalformed getU8
  if version ≠ 1 then throw .malformed
  let document ← LogicalDocument.get
  let docId ← Decoder.orMalformed getU128
  let epoch ← Decoder.orMalformed getU64
  let owner ← getFixed 32
  let phase ← getPhase
  let receiptHash ← getOptionalHash
  let operationCount ← Decoder.orMalformed getU32
  if operationCount.toNat > maxEpochOperations then throw .epochBound
  let inner ← restoreOperations operationCount.toNat none (.empty owner)
  let quarantineCount ← Decoder.orMalformed getU32
  if quarantineCount.toNat > maxQuarantined then throw .epochBound
  let parked ← restoreQuarantine inner.operations quarantineCount.toNat []
  Decoder.orMalformed finish
  if ¬ LifecycleOk phase receiptHash parked then throw .malformed
  pure ⟨document, docId, epoch,
    { inner with phase := phase, receiptHash := receiptHash, quarantine := parked }⟩

/-- Restore lifecycle state after a crash. -/
def decode (bytes : Bytes) : Except ReplError EpochGate :=
  if bytes.length > maxEpochGateBytes then .error .epochBound
  else Parser.parse getGate bytes

/-! ## A valid gate encodes -/

/-- The bytes of a gate whose counts fit their fields. -/
def bytes (gate : EpochGate) : Bytes :=
  putU8 1 ++ gate.document.put ++ putU128 gate.docId ++ putU64 gate.epoch
    ++ putHash gate.inner.owner ++ putU8 gate.inner.phase.tag
    ++ putOptionalHash gate.inner.receiptHash
    ++ putU32 (UInt32.ofNat gate.inner.accepted.length)
    ++ gate.inner.accepted.flatMap AdmittedOperation.bytes
    ++ putU32 (UInt32.ofNat gate.inner.quarantine.length)
    ++ (sortedQuarantine gate.inner.quarantine).flatMap putHash

theorem length_sortedQuarantine (quarantine : List Hash32) :
    (sortedQuarantine quarantine).length = quarantine.length :=
  (List.perm_insertionSort _ _).length_eq

theorem length_putOptionalHash_le (hash : Option Hash32) :
    (putOptionalHash hash).length ≤ 37 := by
  cases hash <;> simp [putOptionalHash]

variable {inner : EpochGateInner} {gate : EpochGate} {op : AdmittedOperation}

theorem lengths_lt (hvalid : inner.Valid) : ∀ op ∈ inner.accepted, op.encodedLen < 2 ^ 32 := by
  intro op hmem
  have hle := (hvalid.lengths op hmem).2
  unfold maxSignedEpochOpBytes at hle
  omega

theorem accepted_length_le (hvalid : inner.Valid) : inner.accepted.length ≤ maxEpochOperations := by
  rw [EpochGateInner.accepted, length_treeValues]
  exact hvalid.count

theorem length_bytes_le (hdoc : gate.document.Bounded) (hvalid : gate.inner.Valid) :
    gate.bytes.length ≤ maxEpochGateBytes := by
  obtain ⟨hserver, hkey⟩ := hdoc.lengths
  have hcount := accepted_length_le hvalid
  have hparked := hvalid.parkedLength
  have hhash := length_putOptionalHash_le gate.inner.receiptHash
  unfold maxEpochOperations at hcount
  unfold maxQuarantined at hparked
  simp only [bytes, List.length_append, length_putU8, LogicalDocument.length_put,
    length_putU128, length_putU64, length_putHash, length_putU32,
    length_flatMap_const AdmittedOperation.length_bytes, length_flatMap_const length_putHash,
    length_sortedQuarantine, maxEpochGateBytes]
  omega

/-- A valid gate of a bounded document always encodes. -/
theorem encode_eq_ok (hdoc : gate.document.Bounded) (hvalid : gate.inner.Valid) :
    gate.encode = .ok gate.bytes := by
  obtain ⟨hserver, hkey⟩ := hdoc.lengths
  have hcount := accepted_length_le hvalid
  have hparked := hvalid.parkedLength
  unfold maxEpochOperations at hcount
  unfold maxQuarantined at hparked
  have hlen := length_bytes_le hdoc hvalid
  have hoperations := mapM_eq_ok_map fun op hop =>
    AdmittedOperation.encode_eq_ok (lengths_lt hvalid op hop)
  rw [encode, putBytes, if_pos (by omega), putBytes, if_pos (by omega), tryU32,
    if_pos (by omega), hoperations, tryU32, if_pos (by omega)]
  simp only [Except.mapError, ok_bind]
  simp only [bytes, LogicalDocument.put, List.flatMap_def, List.append_assoc] at hlen ⊢
  rw [if_neg (Nat.not_lt.mpr hlen)]
  rfl

/-! ## A valid gate restores -/

theorem hash_lt_of_compare {left right : Hash32} (h : compare left right = .lt) :
    left < right := by
  simpa [compare, compareOfLessAndEq] using h

theorem pairwise_accepted (haccounted : inner.Accounted) :
    inner.accepted.Pairwise fun left right => left.opHash < right.opHash :=
  (pairwise_treeValues haccounted.keyed).imp hash_lt_of_compare

theorem mem_accepted (haccounted : inner.Accounted) :
    op ∈ inner.accepted ↔ inner.operations[op.opHash]? = some op := by
  rw [getElem?_iff_mem haccounted.keyed, and_iff_left rfl]
  rfl

/-- What has been restored after the operations in {lit}`done`. -/
structure Restored (acc : EpochGateInner) (done : List AdmittedOperation) : Prop where
  accounted : acc.Accounted
  entries : ∀ (hash : Hash32) (op : AdmittedOperation),
    acc.operations[hash]? = some op ↔ op ∈ done ∧ op.opHash = hash
  accepted : acc.accepted.Perm done

/-- The next operation of a valid gate passes every restore check. -/
theorem Restored.restorable {inner acc : EpochGateInner} (hvalid : inner.Valid)
    {done todo : List AdmittedOperation} (hsplit : done ++ op :: todo = inner.accepted)
    (h : Restored acc done) : Restorable (done.getLast?.map (·.opHash)) acc op := by
  have hmem : op ∈ inner.accepted := by simp [← hsplit]
  have hsorted := pairwise_accepted hvalid.toAccounted
  rw [← hsplit, List.pairwise_append] at hsorted
  have hbelow : ∀ earlier ∈ done, earlier.opHash < op.opHash := fun earlier hearlier =>
    hsorted.2.2 earlier hearlier op List.mem_cons_self
  have hlengths := hvalid.lengths op hmem
  have hcount := accepted_length_le hvalid
  have htotal := hvalid.bytes
  have hsize : acc.operations.size = done.length := by
    rw [← length_treeValues]
    exact h.accepted.length_eq
  have hsum : acc.totalBytes = (done.map (·.encodedLen)).sum := by
    rw [h.accounted.total, (h.accepted.map (·.encodedLen)).sum_eq]
  rw [hvalid.total, ← hsplit] at htotal
  rw [← hsplit] at hcount
  simp only [List.map_append, List.sum_append, List.map_cons, List.sum_cons] at htotal
  simp only [List.length_append, List.length_cons] at hcount
  refine ⟨?_, hlengths.1, hlengths.2, by omega, by omega, ?_, ?_⟩
  · intro hash hhash
    rcases Option.map_eq_some_iff.mp hhash with ⟨earlier, hlast, rfl⟩
    exact hbelow earlier (List.mem_of_getLast? hlast)
  · rw [Option.eq_none_iff_forall_ne_some]
    intro other hother
    rcases (h.entries op.opHash other).mp hother with ⟨hdone, heq⟩
    exact absurd (hbelow other hdone) (by rw [heq]; exact BitVec.lt_irrefl _)
  · rw [Option.eq_none_iff_forall_ne_some]
    intro hash hhash
    rcases (h.accounted.ids op.domainOpId hash).mp hhash with ⟨other, hother, hdomain⟩
    rcases (h.entries hash other).mp hother with ⟨hdone, rfl⟩
    have hotherMem : other ∈ inner.accepted := by simp [← hsplit, hdone]
    have hsame := hvalid.domainOpId_inj ((mem_accepted hvalid.toAccounted).mp hotherMem)
      ((mem_accepted hvalid.toAccounted).mp hmem) hdomain
    exact absurd (hbelow other hdone) (by rw [hsame]; exact BitVec.lt_irrefl _)

/-- Recording the next operation restores one more. -/
theorem Restored.record {prior : Option Hash32} {acc : EpochGateInner}
    {done : List AdmittedOperation} (h : Restored acc done) (hop : Restorable prior acc op) :
    Restored (acc.record op) (done ++ [op]) := by
  have haccounted := h.accounted.record hop.2.2.2.2.2.1 hop.2.2.2.2.2.2
  have hperm : (acc.record op).accepted.Perm (done ++ [op]) := by
    refine (EpochGateInner.accepted_record hop.2.2.2.2.2.1).trans ?_
    exact (h.accepted.cons op).trans (List.perm_append_singleton op done).symm
  refine ⟨haccounted, fun hash other => ?_, hperm⟩
  rw [getElem?_iff_mem haccounted.keyed, ← hperm.mem_iff]
  rfl

/-- The operation loop reads a valid gate's operations back. -/
theorem restoreOperations_run (hvalid : inner.Valid) (rest : Bytes) :
    ∀ (todo done : List AdmittedOperation) (acc : EpochGateInner),
      done ++ todo = inner.accepted → Restored acc done →
      ∃ final, (restoreOperations todo.length (done.getLast?.map (·.opHash)) acc).run
          (todo.flatMap AdmittedOperation.bytes ++ rest) = .ok (final, rest) ∧
        Restored final inner.accepted ∧ final.owner = acc.owner := by
  intro todo
  induction todo with
  | nil =>
    intro done acc hsplit h
    rw [List.append_nil] at hsplit
    rw [← hsplit]
    exact ⟨acc, rfl, h, rfl⟩
  | cons op todo ih =>
    intro done acc hsplit h
    have hop := h.restorable hvalid hsplit
    have hmem : op ∈ inner.accepted := by simp [← hsplit]
    rcases ih (done ++ [op]) (acc.record op) (by simpa using hsplit) (h.record hop) with
      ⟨final, hrun, hfinal, howner⟩
    refine ⟨final, ?_, hfinal, howner⟩
    rw [List.length_cons, restoreOperations, List.flatMap_cons, List.append_assoc,
      (AdmittedOperation.get_bytes (lengths_lt hvalid op hmem)).run_bind,
      if_neg (not_not.mpr hop)]
    rw [List.getLast?_append, List.getLast?_singleton] at hrun
    exact hrun

/-- The quarantine loop reads sorted, unaccepted hashes back. -/
theorem restoreQuarantine_run (operations : ExtTreeMap Hash32 AdmittedOperation)
    (rest : Bytes) : ∀ todo done : List Hash32,
      (done ++ todo).Pairwise (· < ·) → (∀ hash ∈ todo, operations[hash]? = none) →
      (restoreQuarantine operations todo.length done).run (todo.flatMap putHash ++ rest)
        = .ok (done ++ todo, rest) := by
  intro todo
  induction todo with
  | nil =>
    intro done _ _
    rw [List.append_nil]
    rfl
  | cons hash todo ih =>
    intro done hsorted hfresh
    have hbelow : ∀ earlier ∈ done, earlier < hash := fun earlier hearlier =>
      (List.pairwise_append.mp hsorted).2.2 earlier hearlier hash List.mem_cons_self
    have hcheck : ¬ (operations.contains hash = true ∨ hash ∈ done ∨
        ∃ prior ∈ done.getLast?, prior ≥ hash) := by
      rintro (hcontains | hmem | ⟨prior, hprior, hge⟩)
      · rw [ExtTreeMap.contains_eq_isSome_getElem?, hfresh hash List.mem_cons_self] at hcontains
        cases hcontains
      · exact BitVec.lt_irrefl _ (hbelow hash hmem)
      · exact BitVec.not_lt.mpr hge (hbelow prior (List.mem_of_getLast? hprior))
    rw [List.length_cons, restoreQuarantine, List.flatMap_cons, List.append_assoc,
      (getFixed_putHash hash).run_bind, if_neg hcheck]
    have hrun := ih (done ++ [hash]) (by simpa using hsorted)
      fun other hmem => hfresh other (List.mem_cons_of_mem _ hmem)
    rw [hrun]
    simp

/-- The gate with its quarantine in the persisted order. -/
def sorted (gate : EpochGate) : EpochGate :=
  gate.withInner { gate.inner with quarantine := sortedQuarantine gate.inner.quarantine }

theorem mem_sortedQuarantine {quarantine : List Hash32} {hash : Hash32} :
    hash ∈ sortedQuarantine quarantine ↔ hash ∈ quarantine :=
  (List.perm_insertionSort _ _).mem_iff

theorem pairwise_sortedQuarantine {quarantine : List Hash32} (hnodup : quarantine.Nodup) :
    (sortedQuarantine quarantine).Pairwise (· < ·) := by
  have hle : (sortedQuarantine quarantine).Pairwise (· ≤ ·) :=
    List.pairwise_insertionSort _ _
  have hne : (sortedQuarantine quarantine).Pairwise (· ≠ ·) :=
    (List.perm_insertionSort _ _).nodup_iff.mpr hnodup
  exact (hle.and hne).imp fun h => BitVec.lt_of_le_ne h.1 h.2

theorem sorted_valid (hvalid : gate.inner.Valid) :
    gate.sorted.inner.Valid := { hvalid with
  toAccounted := hvalid.toAccounted.congr rfl rfl rfl rfl
  parkedNodup := (List.perm_insertionSort _ _).nodup_iff.mpr hvalid.parkedNodup
  parkedFresh := fun hash hmem => hvalid.parkedFresh hash (mem_sortedQuarantine.mp hmem)
  parkedLength := by
    have hlen := hvalid.parkedLength
    rwa [← length_sortedQuarantine] at hlen
  parkedEmpty := by
    intro hphase
    show sortedQuarantine gate.inner.quarantine = []
    rw [hvalid.parkedEmpty hphase]
    rfl }

/-- Restoring the operations of a valid gate rebuilds all of its accounting. -/
theorem Restored.eq {inner final : EpochGateInner} (hvalid : inner.Valid)
    (h : Restored final inner.accepted) (howner : final.owner = inner.owner) :
    { final with
      phase := inner.phase
      receiptHash := inner.receiptHash
      quarantine := sortedQuarantine inner.quarantine } =
      { inner with quarantine := sortedQuarantine inner.quarantine } := by
  have hops : final.operations = inner.operations :=
    eq_of_mem_treeValues hvalid.keyed h.entries
  rcases h.accounted.eq_of_operations hvalid.toAccounted hops with ⟨hids, htotal, hdevices⟩
  rw [howner, hops, hids, htotal, hdevices]

theorem lifecycleOk (hvalid : inner.Valid) :
    LifecycleOk inner.phase inner.receiptHash (sortedQuarantine inner.quarantine) := by
  have hhashed := hvalid.hashed
  have hempty := hvalid.parkedEmpty
  cases hphase : inner.phase with
  | opened =>
    refine ⟨?_, by rw [hempty (.inl hphase)]; rfl⟩
    simpa [hphase] using hhashed
  | closing =>
    intro hnone
    simp [hphase, hnone] at hhashed
  | settled =>
    refine ⟨?_, by rw [hempty (.inr hphase)]; rfl⟩
    intro hnone
    simp [hphase, hnone] at hhashed
  | fault =>
    show inner.receiptHash = none
    simpa [hphase] using hhashed

/-- A valid gate of a bounded document restores, with its quarantine sorted. -/
theorem decode_bytes (hdoc : gate.document.Bounded) (hvalid : gate.inner.Valid) :
    decode gate.bytes = .ok gate.sorted := by
  have hcount := accepted_length_le hvalid
  have hparked := hvalid.parkedLength
  have hempty : Restored (.empty gate.inner.owner) [] :=
    ⟨.empty _, by simp [EpochGateInner.empty], List.Perm.refl _⟩
  have hcountNat := UInt32.toNat_ofNat_of_lt' (Nat.lt_of_le_of_lt hcount (by decide))
  have hparkedNat := UInt32.toNat_ofNat_of_lt' (Nat.lt_of_le_of_lt hparked (by decide))
  rw [decode, if_neg (Nat.not_lt.mpr (length_bytes_le hdoc hvalid)), Parser.parse, getGate, bytes]
  simp only [List.append_assoc]
  rw [(getU8_putU8 1).orMalformed.run_bind, if_neg (by decide),
    (LogicalDocument.get_put hdoc).run_bind, (getU128_putU128 _).orMalformed.run_bind,
    (getU64_putU64 _).orMalformed.run_bind, (getFixed_putHash _).run_bind,
    (getPhase_tag _).run_bind, (getOptionalHash_put _).run_bind,
    (getU32_putU32 _).orMalformed.run_bind, hcountNat, if_neg (Nat.not_lt.mpr hcount)]
  rcases restoreOperations_run hvalid (putU32 (UInt32.ofNat gate.inner.quarantine.length)
      ++ (sortedQuarantine gate.inner.quarantine).flatMap putHash) gate.inner.accepted []
      (.empty gate.inner.owner) rfl hempty with ⟨final, hrun, hfinal, howner⟩
  have hops : final.operations = gate.inner.operations :=
    eq_of_mem_treeValues hvalid.keyed hfinal.entries
  have hquarantine := restoreQuarantine_run final.operations []
    (sortedQuarantine gate.inner.quarantine) [] (pairwise_sortedQuarantine hvalid.parkedNodup)
    (fun hash hmem => by
      rw [hops]
      exact hvalid.parkedFresh hash (mem_sortedQuarantine.mp hmem))
  rw [length_sortedQuarantine, List.append_nil, List.nil_append] at hquarantine
  rw [StateT.run_bind, show ((restoreOperations gate.inner.accepted.length none
    (.empty gate.inner.owner)).run _ = _) from hrun, ok_bind]
  simp only
  rw [(getU32_putU32 _).orMalformed.run_bind, hparkedNat, if_neg (Nat.not_lt.mpr hparked),
    StateT.run_bind, hquarantine, ok_bind]
  simp only
  rw [finish_run_bind, if_neg (not_not.mpr (lifecycleOk hvalid)), hfinal.eq hvalid howner]
  rfl

/-- Saving a valid gate succeeds, and restoring it gives it back with its quarantine sorted. -/
theorem decode_encode {gate : EpochGate} (hdoc : gate.document.Bounded)
    (hvalid : gate.inner.Valid) :
    ∃ saved, gate.encode = .ok saved ∧ decode saved = .ok gate.sorted :=
  ⟨gate.bytes, encode_eq_ok hdoc hvalid, decode_bytes hdoc hvalid⟩

end EpochGate

end Mewtual
