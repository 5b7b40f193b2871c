import Mewtual.Epoch.GateCodec
import Mewtual.Epoch.Seal
import Mewtual.Lib.Run

/-!
# Runs of the epoch gate

Two views of a gate over whole runs. The first keeps the locked state consistent through
every operation, restarts and committed repairs included. The second follows an admission
to the operation lists later transitions return: sealing cuts the run into the operations
before the seal and those after it.

Main results:

- Theorem {lit}`EpochGate.run_valid`: what every reachable gate satisfies, and that it is
  saved and restored.
- Theorem {lit}`Guarded.sealing_is_linear`: sealing is a linear cut.
- Theorem {lit}`Guarded.stale_seal_omits`: a stale transition returns no operation.
-/

namespace Mewtual

open Std

namespace EpochGate

/-! ## Every gate operation -/

/-- One operation on a gate. -/
inductive Event where
  | admitLocal (op : AdmittedOperation)
  | admitInbound (op : AdmittedOperation)
  | updateOwner (owner : DeviceId)
  | transition (verified : VerifiedReceipt) (outcome : ReceiptIngest)
  | markSettled (receiptHash : Hash32)
  | commitRepair (expected next : EpochGateInner) (disposition : RepairDisposition)
  | restart

/-- The gate an operation leaves. A restart that could not encode or decode would leave no
gate; the run then keeps the saved one. -/
def step (gate : EpochGate) : Event → EpochGate
  | .admitLocal op => (gate.admitLocal op).2
  | .admitInbound op => (gate.admitInbound op).2
  | .updateOwner owner => gate.updateOwner owner
  | .transition verified outcome => (gate.transitionVerifiedReceipt verified outcome id ()).2.1
  | .markSettled receiptHash => (gate.markSettled receiptHash).2
  | .commitRepair expected next disposition =>
    (gate.commitRepair expected next disposition id ()).2.1
  | .restart =>
    match gate.encode >>= decode with
    | .ok restored => restored
    | .error _ => gate

/-- What a gate satisfies throughout its life. -/
structure Lives (document : LogicalDocument) (gate : EpochGate) : Prop where
  document : gate.document = document
  valid : gate.inner.Valid

theorem Lives.withInner {document : LogicalDocument} {gate : EpochGate}
    (h : gate.Lives document) {inner : EpochGateInner} (hstep : GateStep gate.inner inner) :
    (gate.withInner inner).Lives document :=
  ⟨h.document, h.valid.step hstep⟩

/-- Every operation keeps the gate valid. -/
theorem Lives.step {document : LogicalDocument} (hbounded : document.Bounded)
    {gate : EpochGate} (h : gate.Lives document) (event : Event) :
    (gate.step event).Lives document := by
  cases event with
  | admitLocal op =>
    rcases gate.admitLocal_step op with ⟨inner, hnext, hstep⟩
    rw [EpochGate.step, hnext]
    exact h.withInner hstep
  | admitInbound op =>
    rcases gate.admitInbound_step op with ⟨inner, hnext, hstep⟩
    rw [EpochGate.step, hnext]
    exact h.withInner hstep
  | updateOwner owner => exact h.withInner (.owner gate.inner owner)
  | transition verified outcome =>
    rw [EpochGate.step]
    rcases gate.transitionVerifiedReceipt_spec verified outcome id () with
      ⟨error, hspec⟩ | ⟨-, -, inner, hmove, hspec⟩
    · rw [hspec]
      exact h
    · rw [hspec]
      exact h.withInner hmove.step
  | markSettled receiptHash =>
    rcases gate.markSettled_step receiptHash with ⟨inner, hnext, hstep⟩
    rw [EpochGate.step, hnext]
    exact h.withInner hstep
  | commitRepair expected next disposition =>
    rw [EpochGate.step]
    rcases gate.commitRepair_spec expected next disposition id () with
      hspec | ⟨hspec, hexpected, hphase, hmove⟩
    · rw [hspec]
      exact h
    · rw [hspec]
      refine h.withInner ?_
      rw [hexpected]
      exact hmove.step hphase
  | restart =>
    have hdocument : gate.document.Bounded := h.document ▸ hbounded
    rcases decode_encode hdocument h.valid with ⟨saved, hsaved, hdecode⟩
    rw [EpochGate.step, hsaved, ok_bind, hdecode]
    exact ⟨h.document, sorted_valid h.valid⟩

/-- The state of a gate, as its callers rely on it. -/
structure Consistent (inner : EpochGateInner) : Prop where
  bijection : Set.BijOn (fun id : Hash32 => inner.operationIds[id]?)
    {id | ∃ op ∈ inner.accepted, op.domainOpId = id}
    {hash | ∃ op ∈ inner.accepted, some op.opHash = hash}
  named : ∀ id : Hash32, inner.operationIds[id]? ≠ none →
    ∃ op ∈ inner.accepted, op.domainOpId = id
  total : inner.totalBytes = (inner.accepted.map (·.encodedLen)).sum
  devices : ∀ device : DeviceId, (inner.byDevice[device]?).getD (0, 0)
    = ((inner.accepted.filter (·.author = device)).length,
      ((inner.accepted.filter (·.author = device)).map (·.encodedLen)).sum)
  lengths : ∀ op ∈ inner.accepted, 1 ≤ op.encodedLen ∧ op.encodedLen ≤ maxSignedEpochOpBytes
  count : inner.accepted.length ≤ maxEpochOperations
  bytes : inner.totalBytes ≤ maxEpochBytes
  quarantine : inner.quarantine.Nodup ∧ inner.quarantine.length ≤ maxQuarantined ∧
    ∀ hash ∈ inner.quarantine, ∀ op ∈ inner.accepted, op.opHash ≠ hash
  quiet : inner.phase = .opened ∨ inner.phase = .settled → inner.quarantine = []
  hashed : inner.receiptHash.isSome = true ↔ inner.phase = .closing ∨ inner.phase = .settled

/-- The locked invariant says what callers rely on. -/
theorem consistent_of_valid {inner : EpochGateInner} (h : inner.Valid) : Consistent inner where
  bijection := by
    refine ⟨?_, ?_, ?_⟩
    · rintro id ⟨op, hop, rfl⟩
      have hheld := (EpochGate.mem_accepted h.toAccounted).mp hop
      exact ⟨op, hop, ((h.ids op.domainOpId op.opHash).mpr ⟨op, hheld, rfl⟩).symm⟩
    · rintro left ⟨op, hop, rfl⟩ right ⟨other, hother, rfl⟩ heq
      have hleft := (h.ids op.domainOpId op.opHash).mpr
        ⟨op, (EpochGate.mem_accepted h.toAccounted).mp hop, rfl⟩
      have hright := (h.ids other.domainOpId other.opHash).mpr
        ⟨other, (EpochGate.mem_accepted h.toAccounted).mp hother, rfl⟩
      dsimp only at heq
      rw [hleft, hright, Option.some.injEq] at heq
      rw [heq] at hleft
      rcases (h.ids op.domainOpId other.opHash).mp hleft with ⟨found, hfound, hid⟩
      rw [(EpochGate.mem_accepted h.toAccounted).mp hother, Option.some.injEq] at hfound
      rw [hfound, hid]
    · rintro hash ⟨op, hop, rfl⟩
      have hheld := (EpochGate.mem_accepted h.toAccounted).mp hop
      exact ⟨op.domainOpId, ⟨op, hop, rfl⟩,
        (h.ids op.domainOpId op.opHash).mpr ⟨op, hheld, rfl⟩⟩
  named := by
    intro id hsome
    rcases Option.ne_none_iff_exists'.mp hsome with ⟨hash, hhash⟩
    rcases (h.ids id hash).mp hhash with ⟨op, hop, hid⟩
    exact ⟨op, mem_treeValues.mpr ⟨hash, hop⟩, hid⟩
  total := h.total
  devices := by
    intro device
    rw [h.devices]
    unfold deviceShare
    dsimp only
    split <;> rename_i hmine
    · rw [hmine]
      rfl
    · rfl
  lengths := h.lengths
  count := by
    rw [EpochGateInner.accepted, length_treeValues]
    exact h.count
  bytes := h.bytes
  quarantine := by
    refine ⟨h.parkedNodup, h.parkedLength, ?_⟩
    intro hash hparked op hop heq
    have hfresh := h.parkedFresh hash hparked
    rw [← heq, (EpochGate.mem_accepted h.toAccounted).mp hop] at hfresh
    cases hfresh
  quiet := h.parkedEmpty
  hashed := h.hashed

/-- Every gate a run reaches is consistent, is saved, and is restored with its quarantine in
order. -/
theorem run_valid {serverId logicalKey : Bytes} {docType : DocType} {document : LogicalDocument}
    (hnew : LogicalDocument.new serverId docType logicalKey = .ok document) (docId : Fixed 16)
    (epoch : UInt64) (owner : DeviceId) (events : List Event) :
    Consistent (run step (new document docId epoch owner) events).inner ∧
      ∃ saved, (run step (new document docId epoch owner) events).encode = .ok saved ∧
        decode saved = .ok (run step (new document docId epoch owner) events).sorted := by
  have hbounded : document.Bounded := by
    rcases LogicalDocument.new_eq_ok.mp hnew with ⟨rfl, hbounded⟩
    exact hbounded
  have hlives : (run step (new document docId epoch owner) events).Lives document := by
    refine run_induction (fun _ => True) (fun _ gate => Lives document gate) ?_ ?_ ?_ events
      trivial
    · exact fun _ _ _ => trivial
    · exact ⟨rfl, .empty owner⟩
    · exact fun past event _ hold => hold.step hbounded event
  refine ⟨consistent_of_valid hlives.valid, decode_encode ?_ hlives.valid⟩
  rw [hlives.document]
  exact hbounded

/-- An operation is accepted, the epoch is sealed, and a late operation is parked. -/
def sealingEvents : List Event :=
  [.admitLocal ⟨10, 20, 1, 100⟩, .transition ⟨plainDocument, 3, 6, 5, 8⟩ .advanced,
    .admitInbound ⟨11, 21, 2, 100⟩]

/-- A registry gate that was sealed with an operation parked is consistent and restored. -/
theorem run_valid_sealed :
    (run step (new plainDocument 9 3 1) sealingEvents).inner.quarantine = [11] ∧
      Consistent (run step (new plainDocument 9 3 1) sealingEvents).inner ∧
      ∃ saved, (run step (new plainDocument 9 3 1) sealingEvents).encode = .ok saved ∧
        decode saved = .ok (run step (new plainDocument 9 3 1) sealingEvents).sorted := by
  have hnew : LogicalDocument.new [7] .docRegistry [1] = .ok plainDocument := by decide
  exact ⟨by decide +kernel, run_valid hnew 9 3 1 sealingEvents⟩

end EpochGate

/-! ## Sealing as a cut -/

/-- A gate, the receipt book beside it and the document state the commit closures change. -/
structure Guarded (σ : Type) where
  gate : EpochGate
  book : ReceiptBook
  state : σ

namespace Guarded

variable {σ : Type}

/-- The route an operation takes into the gate. -/
inductive Route where
  | localEdit
  | inbound

/-- One operation on the gate. Every admission brings its own commit closure. -/
inductive Event (σ : Type) where
  | admission (route : Route) (op : AdmittedOperation) (commit : σ → σ)
  | transition (verified : VerifiedReceipt) (outcome : ReceiptIngest)
  | ingestAndSeal (receipt : Receipt) (group : OwnerAuthority) (tenureStart : UInt64)
  | checkOpening (receipt opening : Receipt) (group : OwnerAuthority) (tenureStart : UInt64)
  | updateOwner (owner : DeviceId)
  | markSettled (receiptHash : Hash32)
  | commitRepair (expected next : EpochGateInner) (disposition : RepairDisposition)

/-- Admit and commit along one route. -/
def admission (guarded : Guarded σ) (op : AdmittedOperation) (commit : σ → σ) :
    Route → Except ReplError Admission × EpochGate × σ
  | .localEdit => guarded.gate.admitLocalAndCommit op commit guarded.state
  | .inbound => guarded.gate.admitInboundAndCommit op commit guarded.state

/-- What an operation leaves. -/
def step [Crypto] (guarded : Guarded σ) : Event σ → Guarded σ
  | .admission route op commit =>
    let admitted := guarded.admission op commit route
    ⟨admitted.2.1, guarded.book, admitted.2.2⟩
  | .transition verified outcome =>
    { guarded with
      gate := (guarded.gate.transitionVerifiedReceipt verified outcome id ()).2.1 }
  | .ingestAndSeal receipt group tenureStart =>
    let sealed := guarded.book.ingestAndSeal receipt group tenureStart guarded.gate
    ⟨sealed.2.1, sealed.2.2, guarded.state⟩
  | .checkOpening receipt opening group tenureStart =>
    let checked :=
      guarded.book.checkOpeningReceipt receipt opening group tenureStart guarded.gate
    ⟨checked.2.1, checked.2.2, guarded.state⟩
  | .updateOwner owner => { guarded with gate := guarded.gate.updateOwner owner }
  | .markSettled receiptHash =>
    { guarded with gate := (guarded.gate.markSettled receiptHash).2 }
  | .commitRepair expected next disposition =>
    { guarded with
      gate := (guarded.gate.commitRepair expected next disposition id ()).2.1 }

/-- What an admission returned. -/
def admitted (guarded : Guarded σ) : Event σ → Option (Except ReplError Admission)
  | .admission route op commit => some (guarded.admission op commit route).1
  | _ => none

/-- The outcome of a transition and the operation list it returned. -/
def returned [Crypto] (guarded : Guarded σ) :
    Event σ → Option (ReceiptIngest × List AdmittedOperation)
  | .transition verified outcome =>
    (guarded.gate.transitionVerifiedReceipt verified outcome id ()).1.toOption.map (outcome, ·)
  | .ingestAndSeal receipt group tenureStart =>
    (guarded.book.ingestAndSeal receipt group tenureStart guarded.gate).1.toOption
  | _ => none

/-- A repair commit after which the gate is open again. -/
def Reopens [Crypto] (guarded : Guarded σ) (event : Event σ) : Prop :=
  (∃ expected next disposition, event = .commitRepair expected next disposition) ∧
    (guarded.step event).gate.phase = .opened

/-! ### One step -/

/-- What one operation may do to the accepted operations and to the phase. -/
inductive Kept [Crypto] (guarded : Guarded σ) (event : Event σ) : Prop where
  | recorded (route : Route) (op : AdmittedOperation) (commit : σ → σ)
      (hevent : event = .admission route op commit)
      (hopen : guarded.gate.inner.phase = .opened)
      (hfresh : guarded.gate.inner.operations[op.opHash]? = none)
      (haccepted : guarded.admitted event = some (.ok .accepted))
      (hinner : (guarded.step event).gate.inner = guarded.gate.inner.record op)
      (hstate : (guarded.step event).state = commit guarded.state)
  | unchanged (hadmitted : guarded.admitted event ≠ some (.ok .accepted))
      (hoperations : (guarded.step event).gate.inner.operations = guarded.gate.inner.operations)
      (hstate : (guarded.step event).state = guarded.state)
      (hphase : (guarded.step event).gate.phase = .opened →
        guarded.gate.phase = .opened ∨ guarded.Reopens event)

/-- The admission alone, along one route. -/
def routed (gate : EpochGate) (op : AdmittedOperation) :
    Route → Except ReplError Admission × EpochGate
  | .localEdit => gate.admitLocal op
  | .inbound => gate.admitInbound op

theorem admission_eq (guarded : Guarded σ) (op : AdmittedOperation) (commit : σ → σ)
    (route : Route) : guarded.admission op commit route
      = EpochGate.commitAccepted commit guarded.state (routed guarded.gate op route) := by
  cases route <;> rfl

/-- An accepted operation was not in the epoch before. -/
theorem fresh_of_admitOpen {inner : EpochGateInner} {owner : DeviceId} {op : AdmittedOperation}
    (hok : (inner.admitOpen owner op).1 = .ok .accepted) :
    inner.operations[op.opHash]? = none := by
  unfold EpochGateInner.admitOpen at hok
  split at hok <;> rename_i hcontains
  · simp at hok
  · exact EpochGateInner.getElem?_of_not_contains hcontains

/-- Along either route an operation is recorded into the open epoch, or the accepted
operations and the phase stay. -/
theorem routed_spec (gate : EpochGate) (op : AdmittedOperation) (route : Route) :
    ((routed gate op route).1 = .ok .accepted ∧ gate.inner.phase = .opened ∧
        gate.inner.operations[op.opHash]? = none ∧
        (routed gate op route).2.inner = gate.inner.record op) ∨
      ((routed gate op route).1 ≠ .ok .accepted ∧
        (routed gate op route).2.inner.operations = gate.inner.operations ∧
        (routed gate op route).2.inner.phase = gate.inner.phase) := by
  cases route with
  | localEdit =>
    rcases gate.admitLocal_spec op with ⟨hok, hopen, hnext, -⟩ | ⟨hne, hsame⟩
    · refine .inl ⟨hok, hopen, ?_, ?_⟩
      · rw [EpochGate.admitLocal, if_neg (not_not.mpr hopen)] at hok
        exact fresh_of_admitOpen hok
      · rw [routed, hnext, EpochGate.withInner_inner]
    · refine .inr ⟨hne, ?_, ?_⟩
      · rw [routed, hsame]
      · rw [routed, hsame]
  | inbound =>
    rcases gate.inner.admitInboundLocked_spec op with
      ⟨hok, hopen, hnext, -⟩ | ⟨hne, hsame | ⟨-, -, hnext, -⟩⟩
    · refine .inl ⟨hok, hopen, ?_, hnext⟩
      unfold EpochGateInner.admitInboundLocked at hok
      split at hok <;> rename_i hcontains
      · simp at hok
      · exact EpochGateInner.getElem?_of_not_contains hcontains
    · have hinner : (routed gate op .inbound).2.inner = gate.inner := hsame
      exact .inr ⟨hne, by rw [hinner], by rw [hinner]⟩
    · have hinner : (routed gate op .inbound).2.inner
          = { gate.inner with quarantine := gate.inner.quarantine ++ [op.opHash] } := hnext
      exact .inr ⟨hne, by rw [hinner], by rw [hinner]⟩

/-- An admission records its operation and commits it, or does neither. -/
theorem kept_admission [Crypto] (guarded : Guarded σ) (route : Route) (op : AdmittedOperation)
    (commit : σ → σ) : guarded.Kept (.admission route op commit) := by
  have hstate : (guarded.step (.admission route op commit)).state
      = if (routed guarded.gate op route).1 = .ok .accepted then commit guarded.state
        else guarded.state := by
    rw [step, admission_eq]
    rfl
  have hgate : (guarded.step (.admission route op commit)).gate
      = (routed guarded.gate op route).2 := by
    rw [step, admission_eq]
    rfl
  have hadmitted : guarded.admitted (.admission route op commit)
      = some (routed guarded.gate op route).1 := by
    rw [admitted, admission_eq]
    rfl
  rcases routed_spec guarded.gate op route with
    ⟨hok, hopen, hfresh, hinner⟩ | ⟨hne, hoperations, hphase⟩
  · refine .recorded route op commit rfl hopen hfresh ?_ ?_ ?_
    · rw [hadmitted, hok]
    · rw [hgate, hinner]
    · rw [hstate, if_pos hok]
  · refine .unchanged ?_ ?_ ?_ ?_
    · rw [hadmitted]
      exact fun h => hne (Option.some.inj h)
    · rw [hgate, hoperations]
    · rw [hstate, if_neg hne]
    · intro hopen
      rw [EpochGate.phase, hgate, hphase] at hopen
      exact .inl hopen

/-- A step that leaves the operations alone and does not open the gate is unchanged. -/
theorem kept_of_closed [Crypto] {guarded : Guarded σ} {event : Event σ}
    (hadmitted : guarded.admitted event = none) {inner : EpochGateInner}
    (hgate : (guarded.step event).gate = guarded.gate.withInner inner)
    (hstate : (guarded.step event).state = guarded.state)
    (hoperations : inner.operations = guarded.gate.inner.operations)
    (hphase : inner.phase = .opened → guarded.gate.inner.phase = .opened) :
    guarded.Kept event := by
  refine .unchanged ?_ ?_ hstate ?_
  · rw [hadmitted]
    simp
  · rw [hgate, EpochGate.withInner_inner, hoperations]
  · intro hopen
    rw [EpochGate.phase, hgate, EpochGate.withInner_inner] at hopen
    exact .inl (hphase hopen)

theorem phase_opened_of_transition {inner next : EpochGateInner} {hash : Hash32}
    {outcome : ReceiptIngest} (hmove : EpochGate.Transition inner hash outcome next)
    (hopen : next.phase = .opened) : inner.phase = .opened := by
  cases hmove with
  | stale | held => exact hopen
  | faults => simp at hopen
  | closes _ _ hphase => exact hphase

/-- Every operation records one accepted operation or keeps the accepted ones. -/
theorem kept [Crypto] (guarded : Guarded σ) (event : Event σ) : guarded.Kept event := by
  cases event with
  | admission route op commit => exact guarded.kept_admission route op commit
  | transition verified outcome =>
    rcases guarded.gate.transitionVerifiedReceipt_spec verified outcome id () with
      ⟨error, heq⟩ | ⟨-, -, inner, hmove, heq⟩
    · refine kept_of_closed rfl ?_ rfl rfl id
      rw [step, heq, EpochGate.withInner_self]
    · refine kept_of_closed rfl ?_ rfl hmove.operations_eq (phase_opened_of_transition hmove)
      rw [step, heq]
  | ingestAndSeal receipt group tenureStart =>
    rcases guarded.book.ingestAndSeal_spec receipt group tenureStart guarded.gate with
      ⟨error, heq⟩ | ⟨-, outcome, next, inner, -, -, -, -, hmove, heq⟩
    · refine kept_of_closed rfl ?_ rfl rfl id
      rw [step, heq, EpochGate.withInner_self]
    · refine kept_of_closed rfl ?_ rfl hmove.operations_eq (phase_opened_of_transition hmove)
      rw [step, heq]
  | checkOpening receipt opening group tenureStart =>
    rcases guarded.book.checkOpeningReceipt_spec receipt opening group tenureStart
      guarded.gate with ⟨error, heq⟩ | ⟨-, outcome, gate, book, -, -, -, -, hchecked, heq⟩
    · refine kept_of_closed rfl ?_ rfl rfl id
      rw [step, heq, EpochGate.withInner_self]
    · have hgate : (guarded.step (.checkOpening receipt opening group tenureStart)).gate
          = gate := by
        rw [step, heq]
      cases hchecked with
      | faulted | screened | duplicate => exact kept_of_closed rfl hgate rfl rfl id
      | raises => exact kept_of_closed rfl hgate rfl rfl (by simp)
  | updateOwner owner => exact kept_of_closed rfl rfl rfl rfl id
  | markSettled receiptHash =>
    by_cases href : guarded.gate.inner.phase ≠ .closing
        ∨ guarded.gate.inner.receiptHash ≠ some receiptHash
    · refine kept_of_closed rfl ?_ rfl rfl id
      rw [step, EpochGate.markSettled, if_pos href, EpochGate.withInner_self]
    · have hgate : (guarded.step (.markSettled receiptHash)).gate = guarded.gate.withInner
          { guarded.gate.inner with phase := .settled, quarantine := [] } := by
        rw [step, EpochGate.markSettled, if_neg href]
      exact kept_of_closed rfl hgate rfl rfl (by simp)
  | commitRepair expected next disposition =>
    rcases guarded.gate.commitRepair_spec expected next disposition id () with
      heq | ⟨heq, hexpected, -, hmove⟩
    · refine kept_of_closed rfl ?_ rfl rfl id
      rw [step, heq, EpochGate.withInner_self]
    · have hgate : (guarded.step (.commitRepair expected next disposition)).gate
          = guarded.gate.withInner next := by
        rw [step, heq]
      refine .unchanged (by simp [admitted]) ?_ rfl ?_
      · rw [hgate, EpochGate.withInner_inner, hexpected]
        cases hmove <;> rfl
      · exact fun hopen => .inr ⟨⟨expected, next, disposition, rfl⟩, hopen⟩

/-! ### Whole runs -/

variable {guarded : Guarded σ}

/-- An accepted operation stays in the epoch. -/
theorem step_keeps_operation [Crypto] {op : AdmittedOperation}
    (hheld : guarded.gate.inner.operations[op.opHash]? = some op) (event : Event σ) :
    (guarded.step event).gate.inner.operations[op.opHash]? = some op := by
  cases guarded.kept event with
  | recorded route other commit hevent hopen hfresh haccepted hinner hstate =>
    have hne : other.opHash ≠ op.opHash := by
      intro heq
      rw [heq, hheld] at hfresh
      cases hfresh
    rw [hinner, EpochGateInner.record_operations, getElem?_insert_self_or, if_neg hne, hheld]
  | unchanged hadmitted hoperations => rw [hoperations, hheld]

theorem run_keeps_operation [Crypto] {op : AdmittedOperation}
    (hheld : guarded.gate.inner.operations[op.opHash]? = some op) (events : List (Event σ)) :
    (run step guarded events).gate.inner.operations[op.opHash]? = some op := by
  induction events generalizing guarded with
  | nil => exact hheld
  | cons event events ih => exact ih (step_keeps_operation hheld event)

/-- What a transition returns, and the gate it leaves. -/
theorem returned_spec [Crypto] {event : Event σ} {outcome : ReceiptIngest}
    {operations : List AdmittedOperation}
    (hreturned : guarded.returned event = some (outcome, operations)) :
    operations = (if outcome = .stale then [] else guarded.gate.inner.accepted) ∧
      ∃ hash inner, EpochGate.Transition guarded.gate.inner hash outcome inner ∧
        (guarded.step event).gate = guarded.gate.withInner inner := by
  cases event with
  | transition verified found =>
    rw [returned] at hreturned
    rcases guarded.gate.transitionVerifiedReceipt_spec verified found id () with
      ⟨error, heq⟩ | ⟨-, -, inner, hmove, heq⟩
    · rw [heq] at hreturned
      simp [Except.toOption] at hreturned
    · rw [heq] at hreturned
      simp only [Except.toOption, Option.map_some, Option.some.injEq, Prod.mk.injEq]
        at hreturned
      obtain ⟨rfl, rfl⟩ := hreturned
      exact ⟨rfl, _, inner, hmove, by rw [step, heq]⟩
  | ingestAndSeal receipt group tenureStart =>
    rw [returned] at hreturned
    rcases guarded.book.ingestAndSeal_spec receipt group tenureStart guarded.gate with
      ⟨error, heq⟩ | ⟨-, found, next, inner, -, -, -, -, hmove, heq⟩
    · rw [heq] at hreturned
      simp [Except.toOption] at hreturned
    · rw [heq] at hreturned
      simp only [Except.toOption, Option.some.injEq, Prod.mk.injEq] at hreturned
      obtain ⟨rfl, rfl⟩ := hreturned
      exact ⟨rfl, _, inner, hmove, by rw [step, heq]⟩
  | _ => simp [returned] at hreturned

/-- A transition that is not stale returns the accepted operations and leaves the gate closed. -/
theorem sealed_of_returned [Crypto] {event : Event σ} {outcome : ReceiptIngest}
    {operations : List AdmittedOperation}
    (hreturned : guarded.returned event = some (outcome, operations)) (hstale : outcome ≠ .stale) :
    operations = guarded.gate.inner.accepted ∧ (guarded.step event).gate.phase ≠ .opened := by
  obtain ⟨hoperations, hash, inner, hmove, hgate⟩ := returned_spec hreturned
  rw [hoperations, if_neg hstale, hgate]
  exact ⟨rfl, hmove.phase_ne_opened hstale⟩

/-- No repair commit among the events opens the gate again. -/
def NeverReopens [Crypto] (guarded : Guarded σ) (events : List (Event σ)) : Prop :=
  ∀ past event rest, events = past ++ event :: rest → ¬ (run step guarded past).Reopens event

/-- Until a repair opens the gate again, a sealed gate keeps its accepted operations. -/
theorem run_keeps_closed [Crypto] (hclosed : guarded.gate.phase ≠ .opened)
    {events : List (Event σ)} (hrepair : guarded.NeverReopens events) :
    (run step guarded events).gate.phase ≠ .opened ∧
      (run step guarded events).gate.inner.operations = guarded.gate.inner.operations := by
  refine run_induction guarded.NeverReopens
    (fun _ (reached : Guarded σ) => reached.gate.phase ≠ .opened ∧
    reached.gate.inner.operations = guarded.gate.inner.operations) ?_ ⟨hclosed, rfl⟩ ?_ events
    hrepair
  · intro past event hnever earlier later rest hsplit
    exact hnever earlier later (rest ++ [event]) (by rw [hsplit]; simp)
  · rintro past event hnever ⟨hphase, hsame⟩
    cases (run step guarded past).kept event with
    | recorded route op commit hevent hopen => exact absurd hopen hphase
    | unchanged hadmitted hoperations hstate hopens =>
      refine ⟨?_, by rw [hoperations, hsame]⟩
      intro hopen
      rcases hopens hopen with hbefore | hreopens
      · exact hphase hbefore
      · exact hnever past event [] rfl hreopens

/-- What a run so far says about the next operation and about everything after it. -/
structure LinearCut [Crypto] (start : Guarded σ) (past : List (Event σ)) : Prop where
  committed : ∀ route op commit,
    (run step start past).admitted (.admission route op commit) = some (.ok .accepted) →
      (run step start (past ++ [.admission route op commit])).state
        = commit (run step start past).state
  listed : ∀ route op commit between event outcome operations,
    (run step start past).admitted (.admission route op commit) = some (.ok .accepted) →
      (run step start (past ++ .admission route op commit :: between)).returned event
        = some (outcome, operations) →
      outcome ≠ .stale → op ∈ operations
  stale : ∀ event operations, (run step start past).returned event = some (.stale, operations) →
    operations = [] ∧ (run step start (past ++ [event])).gate = (run step start past).gate
  leavesOpen : ∀ event outcome operations,
    (run step start past).returned event = some (outcome, operations) → outcome ≠ .stale →
      (run step start (past ++ [event])).gate.phase ≠ .opened
  closed : ∀ between, (run step start past).gate.phase ≠ .opened →
    (run step start past).NeverReopens between →
      (run step start (past ++ between)).gate.inner.operations
          = (run step start past).gate.inner.operations ∧
        ∀ event, (run step start (past ++ between)).admitted event ≠ some (.ok .accepted)
  refused : ∀ route op commit,
    (run step start past).admitted (.admission route op commit) ≠ some (.ok .accepted) →
      (run step start (past ++ [.admission route op commit])).state
          = (run step start past).state ∧
        (run step start (past ++ [.admission route op commit])).gate.inner.operations
          = (run step start past).gate.inner.operations
  atomic : ∀ receipt group tenureStart error,
    ((run step start past).book.ingestAndSeal receipt group tenureStart
        (run step start past).gate).1 = .error error →
      (run step start (past ++ [.ingestAndSeal receipt group tenureStart])).book
          = (run step start past).book ∧
        (run step start (past ++ [.ingestAndSeal receipt group tenureStart])).gate
          = (run step start past).gate

/-- Sealing is a linear cut of every interleaving. -/
theorem sealing_is_linear [Crypto] (start : Guarded σ) (past : List (Event σ)) :
    start.LinearCut past where
  committed := by
    intro route op commit haccepted
    rw [run_concat]
    cases (run step start past).kept (.admission route op commit) with
    | recorded route' op' commit' hevent _ _ _ _ hstate =>
      cases hevent
      exact hstate
    | unchanged hadmitted => exact absurd haccepted hadmitted
  listed := by
    intro route op commit between event outcome operations haccepted hreturned hstale
    rw [(sealed_of_returned hreturned hstale).1, EpochGateInner.accepted, mem_treeValues]
    refine ⟨op.opHash, ?_⟩
    rw [← List.singleton_append, ← List.append_assoc, run_append]
    refine run_keeps_operation ?_ between
    rw [run_concat]
    cases (run step start past).kept (.admission route op commit) with
    | recorded route' op' commit' hevent _ _ _ hinner _ =>
      cases hevent
      rw [hinner, EpochGateInner.record_operations, getElem?_insert_self_or, if_pos rfl]
    | unchanged hadmitted => exact absurd haccepted hadmitted
  stale := by
    intro event operations hreturned
    obtain ⟨hoperations, hash, inner, hmove, hgate⟩ := returned_spec hreturned
    rw [run_concat, hgate]
    cases hmove with
    | stale => exact ⟨hoperations, rfl⟩
    | closes hstale | held hstale => exact absurd rfl hstale
  leavesOpen := by
    intro event outcome operations hreturned hstale
    rw [run_concat]
    exact (sealed_of_returned hreturned hstale).2
  closed := by
    intro between hclosed hnever
    rw [run_append]
    rcases run_keeps_closed hclosed hnever with ⟨hphase, hsame⟩
    refine ⟨hsame, ?_⟩
    intro event haccepted
    cases (run step (run step start past) between).kept event with
    | recorded route op commit hevent hopen => exact hphase hopen
    | unchanged hadmitted => exact hadmitted haccepted
  refused := by
    intro route op commit hrefused
    rw [run_concat]
    cases (run step start past).kept (.admission route op commit) with
    | recorded route' op' commit' hevent hopen hfresh haccepted => exact absurd haccepted hrefused
    | unchanged hadmitted hoperations hstate => exact ⟨hstate, hoperations⟩
  atomic := by
    intro receipt group tenureStart error herror
    rw [run_concat, step]
    rcases (run step start past).book.ingestAndSeal_spec receipt group tenureStart
      (run step start past).gate with
        ⟨error', heq⟩ | ⟨-, outcome, next, inner, -, -, -, -, -, heq⟩
    · rw [heq]
      exact ⟨rfl, rfl⟩
    · rw [heq] at herror
      cases herror

/-- The book has already seen the receipt that closes epoch five of the same tenure. -/
def advancedStart : Guarded Nat where
  gate := .new plainDocument 9 3 1
  book := (@ReceiptBook.ingestVerified plainCrypto .empty (plainReceipt plainDocument 1 0 5 2)).2
  state := 0

/-- An accepted operation is missing from the list a stale transition returns: the receipt
of epoch three arrives after the book advanced to epoch five, seals nothing and returns no
operation. -/
theorem stale_seal_omits :
    ∃ (_ : Crypto) (start : Guarded Nat) (op : AdmittedOperation) (commit : Nat → Nat)
      (event : Event Nat),
      start.admitted (.admission .localEdit op commit) = some (.ok .accepted) ∧
        (run step start [.admission .localEdit op commit]).returned event
          = some (.stale, []) ∧
        op ∉ ([] : List AdmittedOperation) := by
  refine ⟨plainCrypto, advancedStart, ⟨10, 20, 1, 100⟩, (· + 1),
    .ingestAndSeal (plainReceipt plainDocument 1 0 3 3) (plainGroup [7] 1) 0, ?_, ?_, ?_⟩
  · decide +kernel
  · decide +kernel
  · exact List.not_mem_nil

end Guarded

end Mewtual
