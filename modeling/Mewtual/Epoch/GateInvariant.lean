import Mewtual.Epoch.Gate

/-!
# The gate invariant

What holds of the locked state after any sequence of gate operations: the two operation
maps are inverse to each other, the counters are sums over the accepted operations, the
epoch bounds hold, and the quarantine and the seal agree with the lifecycle phase. Every
gate operation is a {lit}`GateStep`, so one preservation lemma per kind of step covers all
of them.

Main results:

- Theorem {lit}`EpochGateInner.Valid.step`: every gate step keeps the invariant.
- Theorem {lit}`EpochGateInner.Accounted.eq_of_operations`: the accounting is determined by
  the accepted operations.
-/

namespace Mewtual

open Std

/-- Operations and bytes one device contributes to a list of operations. -/
def deviceShare (ops : List AdmittedOperation) (device : DeviceId) : Option (Nat × Nat) :=
  let mine := ops.filter fun op => op.author = device
  if mine = [] then none else some (mine.length, (mine.map (·.encodedLen)).sum)

theorem deviceShare_perm {left right : List AdmittedOperation} (hperm : left.Perm right)
    (device : DeviceId) : deviceShare left device = deviceShare right device := by
  have hmine := hperm.filter fun op => decide (op.author = device)
  have hnil : (left.filter fun op => decide (op.author = device)) = [] ↔
      (right.filter fun op => decide (op.author = device)) = [] := by
    rw [← List.length_eq_zero_iff, ← List.length_eq_zero_iff, hmine.length_eq]
  simp only [deviceShare, hnil, hmine.length_eq, (hmine.map (·.encodedLen)).sum_eq]

/-- One more operation is charged to its author alone. -/
theorem deviceShare_cons (op : AdmittedOperation) (ops : List AdmittedOperation)
    (device : DeviceId) :
    deviceShare (op :: ops) device =
      if op.author = device then
        some (((deviceShare ops device).getD (0, 0)).1 + 1,
          ((deviceShare ops device).getD (0, 0)).2 + op.encodedLen)
      else deviceShare ops device := by
  by_cases hauthor : op.author = device
  · simp only [deviceShare, List.filter_cons, hauthor, decide_true, if_true]
    by_cases hnil : ops.filter (fun op => decide (op.author = device)) = []
    · simp [hnil]
    · simp [hnil, Nat.add_comm]
  · simp [deviceShare, hauthor]

namespace EpochGateInner

/-! ## Accounting -/

/-- The maps and counters agree with the accepted operations. -/
structure Accounted (inner : EpochGateInner) : Prop where
  keyed : ∀ (hash : Hash32) (op : AdmittedOperation),
    inner.operations[hash]? = some op → op.opHash = hash
  ids : ∀ id hash : Hash32, inner.operationIds[id]? = some hash ↔
    ∃ op, inner.operations[hash]? = some op ∧ op.domainOpId = id
  total : inner.totalBytes = (inner.accepted.map (·.encodedLen)).sum
  devices : ∀ device : DeviceId, inner.byDevice[device]? = deviceShare inner.accepted device

theorem Accounted.empty (owner : DeviceId) : (empty owner).Accounted where
  keyed := fun hash op h => by simp [EpochGateInner.empty] at h
  ids := fun id hash => by simp [EpochGateInner.empty]
  total := rfl
  devices := fun device => by simp [EpochGateInner.empty, accepted, deviceShare]

variable {inner : EpochGateInner} {op : AdmittedOperation}

theorem accepted_record (hfresh : inner.operations[op.opHash]? = none) :
    (inner.record op).accepted.Perm (op :: inner.accepted) :=
  treeValues_insert_perm hfresh

/-- Recording a fresh operation keeps the accounting. -/
theorem Accounted.record (h : inner.Accounted) (hhash : inner.operations[op.opHash]? = none)
    (hid : inner.operationIds[op.domainOpId]? = none) : (inner.record op).Accounted where
  keyed := by
    intro hash other hother
    rcases of_getElem?_insert hother with ⟨hhash, rfl⟩ | hold
    · exact hhash
    · exact h.keyed hash other hold
  ids := by
    intro id hash
    rw [record_operationIds, record_operations, getElem?_insert_self_or,
      getElem?_insert_self_or]
    by_cases hsame : op.domainOpId = id
    · rw [if_pos hsame, Option.some.injEq]
      constructor
      · intro heq
        exact ⟨op, by rw [if_pos heq], hsame⟩
      · rintro ⟨other, hother, hdomain⟩
        by_contra hne
        rw [if_neg hne] at hother
        rw [← hsame] at hdomain
        have hknown := (h.ids op.domainOpId hash).mpr ⟨other, hother, hdomain⟩
        rw [hid] at hknown
        cases hknown
    · rw [if_neg hsame, h.ids id hash]
      by_cases heq : op.opHash = hash
      · subst heq
        rw [hhash, if_pos rfl]
        constructor
        · rintro ⟨other, hother, -⟩
          cases hother
        · rintro ⟨other, hother, hdomain⟩
          cases hother
          exact absurd hdomain hsame
      · rw [if_neg heq]
  total := by
    rw [record_totalBytes, ((accepted_record hhash).map (·.encodedLen)).sum_eq, h.total]
    simp [Nat.add_comm]
  devices := by
    intro device
    rw [record_byDevice, getElem?_insert_self_or, deviceShare_perm (accepted_record hhash),
      deviceShare_cons]
    by_cases hauthor : op.author = device
    · subst hauthor
      rw [if_pos rfl, if_pos rfl, charged, h.devices]
    · rw [if_neg hauthor, if_neg hauthor, h.devices]

/-- The accounting is determined by the accepted operations. -/
theorem Accounted.eq_of_operations {left right : EpochGateInner} (hleft : left.Accounted)
    (hright : right.Accounted) (heq : left.operations = right.operations) :
    left.operationIds = right.operationIds ∧ left.totalBytes = right.totalBytes ∧
      left.byDevice = right.byDevice := by
  have haccepted : left.accepted = right.accepted := by rw [accepted, heq, accepted]
  refine ⟨treeMap_ext fun id hash => ?_, ?_, ExtTreeMap.ext_getElem? fun device => ?_⟩
  · rw [hleft.ids, hright.ids, heq]
  · rw [hleft.total, hright.total, haccepted]
  · rw [hleft.devices, hright.devices, haccepted]

/-- Two accepted operations never share a domain id. -/
theorem Accounted.domainOpId_inj (h : inner.Accounted) {hash other : Hash32}
    {op op' : AdmittedOperation} (hop : inner.operations[hash]? = some op)
    (hop' : inner.operations[other]? = some op') (heq : op.domainOpId = op'.domainOpId) :
    hash = other := by
  have hleft := (h.ids op.domainOpId hash).mpr ⟨op, hop, rfl⟩
  have hright := (h.ids op.domainOpId other).mpr ⟨op', hop', heq.symm⟩
  rw [hleft] at hright
  exact Option.some.inj hright

/-! ## The invariant -/

/-- The invariant of the locked state. -/
structure Valid (inner : EpochGateInner) : Prop extends Accounted inner where
  lengths : ∀ op ∈ inner.accepted, 0 < op.encodedLen ∧ op.encodedLen ≤ maxSignedEpochOpBytes
  count : inner.operations.size ≤ maxEpochOperations
  bytes : inner.totalBytes ≤ maxEpochBytes
  parkedNodup : inner.quarantine.Nodup
  parkedFresh : ∀ hash ∈ inner.quarantine, inner.operations[hash]? = none
  parkedLength : inner.quarantine.length ≤ maxQuarantined
  parkedEmpty : inner.phase = .opened ∨ inner.phase = .settled → inner.quarantine = []
  hashed : inner.receiptHash.isSome = true ↔ inner.phase = .closing ∨ inner.phase = .settled

theorem Valid.empty (owner : DeviceId) : (empty owner).Valid where
  toAccounted := .empty owner
  lengths := fun op h => by simp [EpochGateInner.empty, accepted] at h
  count := Nat.zero_le _
  bytes := Nat.zero_le _
  parkedNodup := List.nodup_nil
  parkedFresh := nofun
  parkedLength := Nat.zero_le _
  parkedEmpty := fun _ => rfl
  hashed := by simp [EpochGateInner.empty]

/-- A change of phase, seal and quarantine keeps everything about accepted work. -/
theorem Accounted.congr {inner next : EpochGateInner} (h : inner.Accounted)
    (hops : next.operations = inner.operations) (hids : next.operationIds = inner.operationIds)
    (htotal : next.totalBytes = inner.totalBytes) (hdevices : next.byDevice = inner.byDevice) :
    next.Accounted where
  keyed := by
    rw [hops]
    exact h.keyed
  ids := by
    rw [hops, hids]
    exact h.ids
  total := by
    rw [accepted, hops, htotal]
    exact h.total
  devices := by
    rw [accepted, hops, hdevices]
    exact h.devices

/-- Recording a fresh operation into an open epoch keeps the invariant. -/
theorem Valid.record (h : inner.Valid) (hphase : inner.phase = .opened)
    (hhash : inner.operations[op.opHash]? = none) (hid : inner.operationIds[op.domainOpId]? = none)
    (hpos : 0 < op.encodedLen) (hlen : op.encodedLen ≤ maxSignedEpochOpBytes)
    (hcount : inner.operations.size ≠ maxEpochOperations)
    (htotal : inner.totalBytes + op.encodedLen ≤ maxEpochBytes) :
    (inner.record op).Valid := { h with
  toAccounted := h.toAccounted.record hhash hid
  lengths := by
    intro other hother
    rcases List.mem_cons.mp ((accepted_record hhash).mem_iff.mp hother) with rfl | hmem
    · exact ⟨hpos, hlen⟩
    · exact h.lengths other hmem
  count := by
    have hsize := (accepted_record hhash).length_eq
    have hbound := h.count
    simp only [accepted, length_treeValues, List.length_cons] at hsize
    omega
  bytes := htotal
  parkedFresh := by
    intro hash hmem
    rw [record_quarantine, h.parkedEmpty (.inl hphase)] at hmem
    cases hmem }

/-- Moving the lifecycle to a phase that keeps the quarantine keeps the invariant. -/
theorem Valid.moved (h : inner.Valid) {phase : EpochPhase} {receiptHash : Option Hash32}
    (hopen : phase ≠ .opened) (hsettled : phase ≠ .settled)
    (hhash : receiptHash.isSome = true ↔ phase = .closing) :
    (inner.moved phase receiptHash).Valid := { h with
  toAccounted := h.toAccounted.congr rfl rfl rfl rfl
  parkedEmpty := fun hor => (hor.elim hopen hsettled).elim
  hashed := by
    rw [moved_receiptHash, moved_phase, hhash]
    exact ⟨.inl, fun hor => hor.resolve_right hsettled⟩ }

/-- Clearing the quarantine on the way to an open or settled phase keeps the invariant. -/
theorem Valid.cleared (h : inner.Valid) {phase : EpochPhase} {receiptHash : Option Hash32}
    (hhash : receiptHash.isSome = true ↔ phase = .closing ∨ phase = .settled) :
    ({ inner.moved phase receiptHash with quarantine := [] } : EpochGateInner).Valid := { h with
  toAccounted := h.toAccounted.congr rfl rfl rfl rfl
  parkedNodup := List.nodup_nil
  parkedFresh := nofun
  parkedLength := Nat.zero_le _
  parkedEmpty := fun _ => rfl
  hashed := hhash }

/-- Every gate step keeps the invariant. -/
theorem Valid.step {inner next : EpochGateInner} (h : inner.Valid)
    (hstep : GateStep inner next) : next.Valid := by
  cases hstep with
  | refl => exact h
  | owner owner => exact { h with toAccounted := h.toAccounted.congr rfl rfl rfl rfl }
  | accepts hphase hhash hid hpos hlen hcount htotal =>
    exact h.record hphase hhash hid hpos hlen hcount htotal
  | @park hash hphase hhash hnew hroom =>
    refine { h with
      toAccounted := h.toAccounted.congr rfl rfl rfl rfl
      parkedNodup := ?_
      parkedFresh := List.forall_mem_append.mpr
        ⟨h.parkedFresh, List.forall_mem_singleton.mpr hhash⟩
      parkedLength := ?_
      parkedEmpty := ?_ }
    · rw [(List.perm_append_singleton hash _).nodup_iff, List.nodup_cons]
      exact ⟨hnew, h.parkedNodup⟩
    · have hbound := h.parkedLength
      simp only [List.length_append, List.length_singleton]
      omega
    · intro hor
      simp [hphase] at hor
  | closes | faults => exact h.moved (by simp) (by simp) (by simp)
  | settles hphase =>
    have hsealed : inner.receiptHash.isSome = true := h.hashed.mpr (.inl hphase)
    have hcleared : ({ inner.moved .settled inner.receiptHash with quarantine := [] } :
        EpochGateInner).Valid := h.cleared (by simp [hsealed])
    exact hcleared
  | reopens => exact h.cleared (by simp)

end EpochGateInner

end Mewtual
