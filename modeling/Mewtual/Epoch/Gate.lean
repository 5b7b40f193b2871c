import Mewtual.Lib.TreeMap
import Mewtual.Epoch.Book

/-!
# The epoch lifecycle gate

One per-document lock shared by local edits, inbound operations and receipt settlement.
The gate keeps the accepted operations with their accounting, the seal, and the bounded
quarantine of operations that arrived after the seal.

The source holds the mutable part behind a mutex and runs a commit closure inside the
critical section. Each operation is modelled as one atomic step: it takes the gate and the
state the closure would change, and returns both.

Main results:

- Theorem {lit}`EpochGateInner.admitOpen_spec`: what admission into an open epoch does.
- Theorem {lit}`EpochGate.transitionVerifiedReceipt_spec`: what a receipt transition does.
- Theorem {lit}`EpochGate.commitRepair_spec`: what a committed repair does.
-/

namespace Mewtual

open Std

/-! ## Bounds and data -/

def maxSignedEpochOpBytes : Nat := 256 * 1024

def maxEpochGateBytes : Nat := 3 * 1024 * 1024

def maxEpochBytes : Nat := 4 * 1024 * 1024

def maxDeviceOperations : Nat := 5000

def maxDeviceBytes : Nat := 1024 * 1024

def maxQuarantined : Nat := 1024

/-- Metadata charged by the epoch gate for one signature-verified operation. -/
structure AdmittedOperation where
  opHash : Hash32
  domainOpId : Hash32
  author : DeviceId
  encodedLen : Nat
  deriving DecidableEq, Repr

/-- Outcome of an operation racing the epoch lifecycle gate. -/
inductive Admission where
  | accepted
  | duplicate
  | quarantined
  | rejectedQuarantineFull
  deriving DecidableEq, Repr

/-- Lifecycle state of one concrete epoch document. -/
inductive EpochPhase where
  | opened
  | closing
  | settled
  | fault
  deriving DecidableEq, Repr

/-- The state behind the gate's lock. -/
structure EpochGateInner where
  owner : DeviceId
  phase : EpochPhase
  receiptHash : Option Hash32
  operations : ExtTreeMap Hash32 AdmittedOperation
  operationIds : ExtTreeMap Hash32 Hash32
  totalBytes : Nat
  byDevice : ExtTreeMap DeviceId (Nat × Nat)
  quarantine : List Hash32
  deriving DecidableEq

/-- One gate bound to a server, a logical document and a concrete epoch. -/
structure EpochGate where
  document : LogicalDocument
  docId : Fixed 16
  epoch : UInt64
  inner : EpochGateInner
  deriving DecidableEq

namespace EpochGateInner

/-- The empty open epoch of an owner. -/
def empty (owner : DeviceId) : EpochGateInner :=
  ⟨owner, .opened, none, ∅, ∅, 0, ∅, []⟩

/-- The accepted operations in hash order. -/
def accepted (inner : EpochGateInner) : List AdmittedOperation := treeValues inner.operations

/-- The share already charged to a device. -/
def charged (inner : EpochGateInner) (device : DeviceId) : Nat × Nat :=
  (inner.byDevice[device]?).getD (0, 0)

/-- Record one operation with all of its accounting. -/
@[simps] def record (inner : EpochGateInner) (op : AdmittedOperation) : EpochGateInner where
  owner := inner.owner
  phase := inner.phase
  receiptHash := inner.receiptHash
  operations := inner.operations.insert op.opHash op
  operationIds := inner.operationIds.insert op.domainOpId op.opHash
  totalBytes := inner.totalBytes + op.encodedLen
  byDevice := inner.byDevice.insert op.author
    ((inner.charged op.author).1 + 1, (inner.charged op.author).2 + op.encodedLen)
  quarantine := inner.quarantine

/-- Move the lifecycle without touching accepted work or quarantine. -/
@[simps] def moved (inner : EpochGateInner) (phase : EpochPhase) (receiptHash : Option Hash32) :
    EpochGateInner :=
  { inner with phase := phase, receiptHash := receiptHash }

/-! ## Admission -/

/-- Admit into an open epoch. The byte counters stay far below the machine word, so the
source's saturating additions are plain ones here. -/
def admitOpen (inner : EpochGateInner) (owner : DeviceId) (op : AdmittedOperation) :
    Except ReplError Admission × EpochGateInner :=
  if inner.operations.contains op.opHash then (.ok .duplicate, inner)
  else match inner.operationIds[op.domainOpId]? with
  | some existingHash =>
    if existingHash = op.opHash then (.ok .duplicate, inner)
    else (.error .intentConflict, inner)
  | none =>
    if op.encodedLen = 0 ∨ op.encodedLen > maxSignedEpochOpBytes
        ∨ inner.operations.size = maxEpochOperations
        ∨ inner.totalBytes + op.encodedLen > maxEpochBytes then (.error .epochBound, inner)
    else if op.author ≠ owner ∧ ((inner.charged op.author).1 ≥ maxDeviceOperations
        ∨ (inner.charged op.author).2 + op.encodedLen > maxDeviceBytes) then
      (.error .epochBound, inner)
    else (.ok .accepted, inner.record op)

/-- Admit an inbound operation, or quarantine its hash once a receipt sealed the epoch. -/
def admitInboundLocked (inner : EpochGateInner) (op : AdmittedOperation) :
    Except ReplError Admission × EpochGateInner :=
  if inner.operations.contains op.opHash then (.ok .duplicate, inner)
  else match inner.operationIds[op.domainOpId]? with
  | some existingHash =>
    if existingHash = op.opHash then (.ok .duplicate, inner)
    else (.error .intentConflict, inner)
  | none =>
    match inner.phase with
    | .opened => inner.admitOpen inner.owner op
    | .closing =>
      -- A re-announced operation is not another pending one.
      if op.opHash ∈ inner.quarantine then (.ok .quarantined, inner)
      else if inner.quarantine.length = maxQuarantined then
        (.ok .rejectedQuarantineFull, inner)
      else (.ok .quarantined, { inner with quarantine := inner.quarantine ++ [op.opHash] })
    | .settled => (.error .epochClosed, inner)
    | .fault => (.error .epochClosed, inner)

end EpochGateInner

namespace EpochGate

/-- An open gate bound to one server, logical document and concrete epoch id. -/
def new (document : LogicalDocument) (docId : Fixed 16) (epoch : UInt64) (owner : DeviceId) :
    EpochGate :=
  ⟨document, docId, epoch, .empty owner⟩

/-- The gate with another locked state. -/
@[simps] def withInner (gate : EpochGate) (inner : EpochGateInner) : EpochGate :=
  { gate with inner := inner }

/-- The phase of the gate. -/
def phase (gate : EpochGate) : EpochPhase := gate.inner.phase

/-- Update the owner whose operations are exempt from the per-device share. -/
def updateOwner (gate : EpochGate) (owner : DeviceId) : EpochGate :=
  gate.withInner { gate.inner with owner := owner }

/-- Admit an operation of this device. -/
def admitLocal (gate : EpochGate) (op : AdmittedOperation) :
    Except ReplError Admission × EpochGate :=
  if gate.inner.phase ≠ .opened then (.error .epochClosed, gate)
  else
    let (result, inner) := gate.inner.admitOpen gate.inner.owner op
    (result, gate.withInner inner)

/-- Admit an operation that was received. -/
def admitInbound (gate : EpochGate) (op : AdmittedOperation) :
    Except ReplError Admission × EpochGate :=
  let (result, inner) := gate.inner.admitInboundLocked op
  (result, gate.withInner inner)

section Commit

variable {σ : Type}

/-- Run the commit closure exactly when the admission was accepted. -/
def commitAccepted (commit : σ → σ) (state : σ)
    (admitted : Except ReplError Admission × EpochGate) :
    Except ReplError Admission × EpochGate × σ :=
  (admitted.1, admitted.2, if admitted.1 = .ok .accepted then commit state else state)

/-- Admit and commit one local mutation while the lock is held. -/
def admitLocalAndCommit (gate : EpochGate) (op : AdmittedOperation) (commit : σ → σ)
    (state : σ) : Except ReplError Admission × EpochGate × σ :=
  commitAccepted commit state (gate.admitLocal op)

/-- Admit and apply one inbound mutation under the same lock. -/
def admitInboundAndCommit (gate : EpochGate) (op : AdmittedOperation) (commit : σ → σ)
    (state : σ) : Except ReplError Admission × EpochGate × σ :=
  commitAccepted commit state (gate.admitInbound op)

/-! ## Receipt transitions -/

/-- Move the gate for one verified receipt and run the receipt-book commit. -/
def transitionVerifiedReceipt (gate : EpochGate) (verified : VerifiedReceipt)
    (outcome : ReceiptIngest) (commit : σ → σ) (state : σ) :
    Except ReplError (List AdmittedOperation) × EpochGate × σ :=
  if verified.document ≠ gate.document ∨ verified.closedEpoch ≠ gate.epoch then
    (.error .epochScope, gate, state)
  else if outcome = .stale then (.ok [], gate, commit state)
  else if outcome = .fault then
    match gate.inner.phase with
    | .settled => (.error .receiptConflict, gate, state)
    | _ => (.ok gate.inner.accepted, gate.withInner (gate.inner.moved .fault none),
        commit state)
  else
    match gate.inner.phase with
    | .opened => (.ok gate.inner.accepted,
        gate.withInner (gate.inner.moved .closing (some verified.receiptHash)), commit state)
    | .closing =>
      if gate.inner.receiptHash = some verified.receiptHash then
        (.ok gate.inner.accepted, gate, commit state)
      else (.error .receiptConflict, gate, state)
    | .settled => (.error .receiptConflict, gate, state)
    | .fault => (.error .receiptConflict, gate, state)

end Commit

/-- Finish settlement and permanently discard post-seal quarantined hashes. -/
def markSettled (gate : EpochGate) (receiptHash : Hash32) : Except ReplError Unit × EpochGate :=
  if gate.inner.phase ≠ .closing ∨ gate.inner.receiptHash ≠ some receiptHash then
    (.error .receiptConflict, gate)
  else (.ok (), gate.withInner { gate.inner with phase := .settled, quarantine := [] })

end EpochGate

/-- What the original application of a repair did. -/
inductive RepairDisposition where
  | transitioned
  | retargeted
  | screened
  deriving DecidableEq, Repr

namespace EpochGate

/-- The candidate with its lifecycle fields, and an emptied quarantine, put back. -/
def repairUnchanged (expected next : EpochGateInner) : EpochGateInner :=
  { next with
    phase := expected.phase
    receiptHash := expected.receiptHash
    quarantine := if next.phase = .opened then expected.quarantine else next.quarantine }

/-- The lifecycle values a repair may commit. -/
def RepairTarget (next : EpochGateInner) : Prop :=
  (next.phase = .opened ∧ next.receiptHash = none) ∨
    (next.phase = .closing ∧ next.receiptHash.isSome = true)

instance (next : EpochGateInner) : Decidable (RepairTarget next) :=
  inferInstanceAs (Decidable (_ ∨ _))

/-- Commit a validated repair candidate if the gate is still the planned one. -/
def commitRepair {σ : Type} (gate : EpochGate) (expected next : EpochGateInner)
    (disposition : RepairDisposition) (commit : σ → σ) (state : σ) :
    Except ReplError Unit × EpochGate × σ :=
  if gate.inner ≠ expected ∨ gate.inner.phase = .settled then
    (.error .receiptConflict, gate, state)
  else if disposition = .screened then
    if next ≠ expected then (.error .receiptConflict, gate, state)
    else (.ok (), gate.withInner next, commit state)
  else if ¬ RepairTarget next then (.error .receiptConflict, gate, state)
  else if next.phase = .opened ∧ next.quarantine ≠ [] then
    (.error .receiptConflict, gate, state)
  else if repairUnchanged expected next ≠ expected then (.error .receiptConflict, gate, state)
  else (.ok (), gate.withInner next, commit state)

end EpochGate

/-! ## One step of the locked state -/

/-- Everything one gate operation can do to the locked state. -/
inductive GateStep : EpochGateInner → EpochGateInner → Prop where
  | refl (inner : EpochGateInner) : GateStep inner inner
  | owner (inner : EpochGateInner) (owner : DeviceId) :
      GateStep inner { inner with owner := owner }
  | accepts {inner : EpochGateInner} {op : AdmittedOperation} (hphase : inner.phase = .opened)
      (hhash : inner.operations[op.opHash]? = none)
      (hid : inner.operationIds[op.domainOpId]? = none)
      (hpos : 0 < op.encodedLen) (hlen : op.encodedLen ≤ maxSignedEpochOpBytes)
      (hcount : inner.operations.size ≠ maxEpochOperations)
      (htotal : inner.totalBytes + op.encodedLen ≤ maxEpochBytes) :
      GateStep inner (inner.record op)
  | park {inner : EpochGateInner} {hash : Hash32} (hphase : inner.phase = .closing)
      (hhash : inner.operations[hash]? = none) (hnew : hash ∉ inner.quarantine)
      (hroom : inner.quarantine.length ≠ maxQuarantined) :
      GateStep inner { inner with quarantine := inner.quarantine ++ [hash] }
  | closes {inner : EpochGateInner} (hash : Hash32) (hphase : inner.phase ≠ .settled) :
      GateStep inner (inner.moved .closing (some hash))
  | faults {inner : EpochGateInner} (hphase : inner.phase ≠ .settled) :
      GateStep inner (inner.moved .fault none)
  | settles {inner : EpochGateInner} (hphase : inner.phase = .closing) :
      GateStep inner { inner with phase := .settled, quarantine := [] }
  | reopens {inner : EpochGateInner} (hphase : inner.phase ≠ .settled) :
      GateStep inner { inner.moved .opened none with quarantine := [] }

namespace EpochGateInner

theorem getElem?_of_not_contains {inner : EpochGateInner} {hash : Hash32}
    (h : ¬ inner.operations.contains hash = true) : inner.operations[hash]? = none := by
  rw [ExtTreeMap.contains_eq_isSome_getElem?] at h
  exact Option.not_isSome_iff_eq_none.mp h

/-- Admission into an open epoch either records the operation or leaves the state alone. -/
theorem admitOpen_spec (inner : EpochGateInner) (owner : DeviceId) (op : AdmittedOperation)
    (hphase : inner.phase = .opened) :
    ((inner.admitOpen owner op).1 = .ok .accepted ∧
        (inner.admitOpen owner op).2 = inner.record op ∧ GateStep inner (inner.record op)) ∨
      ((inner.admitOpen owner op).1 ≠ .ok .accepted ∧ (inner.admitOpen owner op).2 = inner) := by
  unfold admitOpen
  split <;> rename_i hcontains
  · exact .inr ⟨by simp, rfl⟩
  · split
    · split
      · exact .inr ⟨by simp, rfl⟩
      · exact .inr ⟨by simp, rfl⟩
    · rename_i hid
      split <;> rename_i hbounds
      · exact .inr ⟨by simp, rfl⟩
      · split
        · exact .inr ⟨by simp, rfl⟩
        · simp only [not_or, Nat.not_lt] at hbounds
          exact .inl ⟨rfl, rfl, .accepts hphase (getElem?_of_not_contains hcontains) hid
            (Nat.pos_of_ne_zero hbounds.1) hbounds.2.1 hbounds.2.2.1 hbounds.2.2.2⟩

/-- An inbound operation is recorded, parked, or leaves the state alone. -/
theorem admitInboundLocked_spec (inner : EpochGateInner) (op : AdmittedOperation) :
    ((inner.admitInboundLocked op).1 = .ok .accepted ∧ inner.phase = .opened ∧
        (inner.admitInboundLocked op).2 = inner.record op ∧ GateStep inner (inner.record op)) ∨
      ((inner.admitInboundLocked op).1 ≠ .ok .accepted ∧
        ((inner.admitInboundLocked op).2 = inner ∨
          (inner.phase = .closing ∧ (inner.admitInboundLocked op).1 = .ok .quarantined ∧
            (inner.admitInboundLocked op).2
              = { inner with quarantine := inner.quarantine ++ [op.opHash] } ∧
            GateStep inner { inner with quarantine := inner.quarantine ++ [op.opHash] }))) := by
  unfold admitInboundLocked
  split <;> rename_i hcontains
  · exact .inr ⟨by simp, .inl rfl⟩
  · split
    · split
      · exact .inr ⟨by simp, .inl rfl⟩
      · exact .inr ⟨by simp, .inl rfl⟩
    · split <;> rename_i hphase
      · rcases inner.admitOpen_spec inner.owner op hphase with ⟨hok, hnext, hstep⟩ | ⟨hne, hsame⟩
        · exact .inl ⟨hok, hphase, hnext, hstep⟩
        · exact .inr ⟨hne, .inl hsame⟩
      · split <;> rename_i hmem
        · exact .inr ⟨by simp, .inl rfl⟩
        · split <;> rename_i hfull
          · exact .inr ⟨by simp, .inl rfl⟩
          · exact .inr ⟨by simp, .inr ⟨hphase, rfl, rfl,
              .park hphase (getElem?_of_not_contains hcontains) hmem hfull⟩⟩
      · exact .inr ⟨by simp, .inl rfl⟩
      · exact .inr ⟨by simp, .inl rfl⟩

end EpochGateInner

namespace EpochGate

@[simp] theorem withInner_self (gate : EpochGate) : gate.withInner gate.inner = gate := rfl

/-- A local admission records the operation in the open epoch or leaves the gate alone. -/
theorem admitLocal_spec (gate : EpochGate) (op : AdmittedOperation) :
    ((gate.admitLocal op).1 = .ok .accepted ∧ gate.inner.phase = .opened ∧
        (gate.admitLocal op).2 = gate.withInner (gate.inner.record op) ∧
        GateStep gate.inner (gate.inner.record op)) ∨
      ((gate.admitLocal op).1 ≠ .ok .accepted ∧ (gate.admitLocal op).2 = gate) := by
  unfold admitLocal
  split <;> rename_i hphase
  · exact .inr ⟨by simp, rfl⟩
  · have hopen : gate.inner.phase = .opened := not_not.mp hphase
    rcases gate.inner.admitOpen_spec gate.inner.owner op hopen with
      ⟨hok, hnext, hstep⟩ | ⟨hne, hsame⟩
    · exact .inl ⟨hok, hopen, by simp only [hnext], hstep⟩
    · exact .inr ⟨hne, by simp only [hsame, withInner_self]⟩

theorem admitLocal_step (gate : EpochGate) (op : AdmittedOperation) :
    ∃ inner, (gate.admitLocal op).2 = gate.withInner inner ∧ GateStep gate.inner inner := by
  rcases gate.admitLocal_spec op with ⟨-, -, hnext, hstep⟩ | ⟨-, hsame⟩
  · exact ⟨_, hnext, hstep⟩
  · exact ⟨gate.inner, hsame, .refl _⟩

theorem admitInbound_step (gate : EpochGate) (op : AdmittedOperation) :
    ∃ inner, (gate.admitInbound op).2 = gate.withInner inner ∧ GateStep gate.inner inner := by
  refine ⟨(gate.inner.admitInboundLocked op).2, rfl, ?_⟩
  rcases gate.inner.admitInboundLocked_spec op with
    ⟨-, -, hnext, hstep⟩ | ⟨-, hsame | ⟨-, -, hnext, hstep⟩⟩
  · rw [hnext]
    exact hstep
  · rw [hsame]
    exact .refl _
  · rw [hnext]
    exact hstep

/-- What an accepted receipt transition does to the locked state. -/
inductive Transition (inner : EpochGateInner) (hash : Hash32) :
    ReceiptIngest → EpochGateInner → Prop where
  | stale : Transition inner hash .stale inner
  | faults (hphase : inner.phase ≠ .settled) :
      Transition inner hash .fault (inner.moved .fault none)
  | closes {outcome : ReceiptIngest} (hstale : outcome ≠ .stale) (hfault : outcome ≠ .fault)
      (hphase : inner.phase = .opened) :
      Transition inner hash outcome (inner.moved .closing (some hash))
  | held {outcome : ReceiptIngest} (hstale : outcome ≠ .stale) (hfault : outcome ≠ .fault)
      (hphase : inner.phase = .closing) (hhash : inner.receiptHash = some hash) :
      Transition inner hash outcome inner

namespace Transition

variable {inner next : EpochGateInner} {hash : Hash32} {outcome : ReceiptIngest}

theorem step (h : Transition inner hash outcome next) : GateStep inner next := by
  cases h with
  | stale | held => exact .refl _
  | faults hphase => exact .faults hphase
  | closes _ _ hphase => exact .closes hash (by simp [hphase])

/-- A transition that is not stale leaves the gate closed to admissions. -/
theorem phase_ne_opened (h : Transition inner hash outcome next) (hstale : outcome ≠ .stale) :
    next.phase ≠ .opened := by
  cases h with
  | stale => exact absurd rfl hstale
  | faults | closes => simp
  | held _ _ hphase => simp [hphase]

theorem operations_eq (h : Transition inner hash outcome next) :
    next.operations = inner.operations := by
  cases h <;> rfl

end Transition

/-- A refused transition changes nothing. An accepted one runs the commit, moves the locked
state, and unless it was stale returns the accepted operations. -/
theorem transitionVerifiedReceipt_spec {σ : Type} (gate : EpochGate)
    (verified : VerifiedReceipt) (outcome : ReceiptIngest) (commit : σ → σ) (state : σ) :
    (∃ error, gate.transitionVerifiedReceipt verified outcome commit state
        = (.error error, gate, state)) ∨
      (verified.document = gate.document ∧ verified.closedEpoch = gate.epoch ∧
        ∃ inner, Transition gate.inner verified.receiptHash outcome inner ∧
          gate.transitionVerifiedReceipt verified outcome commit state
            = (.ok (if outcome = .stale then [] else gate.inner.accepted),
                gate.withInner inner, commit state)) := by
  unfold transitionVerifiedReceipt
  split <;> rename_i hscope
  · exact .inl ⟨_, rfl⟩
  · simp only [not_or, not_not] at hscope
    split <;> rename_i hstale
    · subst hstale
      exact .inr ⟨hscope.1, hscope.2, _, .stale, rfl⟩
    · split <;> rename_i hfault
      · subst hfault
        cases hphase : gate.inner.phase with
        | settled => exact .inl ⟨_, rfl⟩
        | opened | closing | fault =>
          exact .inr ⟨hscope.1, hscope.2, _, .faults (by simp [hphase]), rfl⟩
      · cases hphase : gate.inner.phase with
        | settled | fault => exact .inl ⟨_, rfl⟩
        | opened => exact .inr ⟨hscope.1, hscope.2, _, .closes hstale hfault hphase, rfl⟩
        | closing =>
          simp only
          split <;> rename_i hhash
          · exact .inr ⟨hscope.1, hscope.2, _, .held hstale hfault hphase hhash, rfl⟩
          · exact .inl ⟨_, rfl⟩

theorem markSettled_step (gate : EpochGate) (receiptHash : Hash32) :
    ∃ inner, (gate.markSettled receiptHash).2 = gate.withInner inner ∧
      GateStep gate.inner inner := by
  unfold markSettled
  split <;> rename_i h
  · exact ⟨gate.inner, rfl, .refl _⟩
  · simp only [not_or, not_not] at h
    exact ⟨_, rfl, .settles h.1⟩

/-- What a committed repair may leave behind, relative to the gate it was planned on. -/
inductive RepairMove (expected : EpochGateInner) : EpochGateInner → Prop where
  | screened : RepairMove expected expected
  | reopened : RepairMove expected { expected.moved .opened none with quarantine := [] }
  | closed (hash : Hash32) : RepairMove expected (expected.moved .closing (some hash))

theorem RepairMove.step {expected next : EpochGateInner} (hmove : RepairMove expected next)
    (hphase : expected.phase ≠ .settled) : GateStep expected next := by
  cases hmove with
  | screened => exact .refl _
  | reopened => exact .reopens hphase
  | closed hash => exact .closes hash hphase

/-- A candidate that differs from the plan in lifecycle only is one of the three moves. -/
theorem repairMove_of_unchanged {expected next : EpochGateInner}
    (htarget : RepairTarget next) (hquarantine : next.phase = .opened → next.quarantine = [])
    (hunchanged : repairUnchanged expected next = expected) : RepairMove expected next := by
  rcases htarget with ⟨hphase, hhash⟩ | ⟨hphase, hsealed⟩
  · have hnext : next = { expected.moved .opened none with quarantine := [] } := by
      rw [← hunchanged]
      have hempty := hquarantine hphase
      cases next
      simp only at hphase hhash hempty
      subst hphase hhash hempty
      rfl
    rw [hnext]
    exact .reopened
  · rcases Option.isSome_iff_exists.mp hsealed with ⟨hash, hhash⟩
    have hnext : next = expected.moved .closing (some hash) := by
      rw [← hunchanged]
      cases next
      simp only at hphase hhash
      subst hphase hhash
      rfl
    rw [hnext]
    exact .closed hash

/-- A repair commit refuses without a change, or was planned on exactly this gate and moves
the lifecycle only. -/
theorem commitRepair_spec {σ : Type} (gate : EpochGate) (expected next : EpochGateInner)
    (disposition : RepairDisposition) (commit : σ → σ) (state : σ) :
    gate.commitRepair expected next disposition commit state
        = (.error .receiptConflict, gate, state) ∨
      (gate.commitRepair expected next disposition commit state
          = (.ok (), gate.withInner next, commit state) ∧
        gate.inner = expected ∧ expected.phase ≠ .settled ∧ RepairMove expected next) := by
  unfold commitRepair
  split <;> rename_i hfence
  · exact .inl rfl
  · simp only [not_or, not_not] at hfence
    rcases hfence with ⟨hexpected, hphase⟩
    rw [hexpected] at hphase
    split
    · split <;> rename_i hsame
      · exact .inl rfl
      · rw [not_not] at hsame
        refine .inr ⟨rfl, hexpected, hphase, ?_⟩
        rw [hsame]
        exact .screened
    · split <;> rename_i htarget
      · exact .inl rfl
      · split <;> rename_i hquarantine
        · exact .inl rfl
        · split <;> rename_i hunchanged
          · exact .inl rfl
          · refine .inr ⟨rfl, hexpected, hphase, repairMove_of_unchanged (not_not.mp htarget) ?_
              (not_not.mp hunchanged)⟩
            intro hopen
            by_contra hne
            exact hquarantine ⟨hopen, hne⟩

end EpochGate

end Mewtual
