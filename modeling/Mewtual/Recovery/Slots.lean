import Mewtual.Lib.Run
import Mewtual.Recovery.Snapshot

/-!
# Recovery slots

Two retained snapshots and one persisted staged snapshot. A third snapshot waits in the
staged slot until the eviction of the oldest is acknowledged or its grace period is over.

Every mutation of the slots comes after the last check of its function, so an operation
returns its new slots with its result and an error leaves the slots as they are.

Main results:

- Theorem {lit}`RecoverySlots.Sound.decode_encode`: sound slots are read back.
- Theorem {lit}`RecoverySlots.step_moves`: everything an operation can do to the slots.
- Theorem {lit}`RecoverySlots.evidence_never_dropped`: what holds after every run, and when a
  retained snapshot may leave.
-/

namespace Mewtual

def maxRecoverySlotsBytes : Nat := 3 * maxRecoverySnapshotBytes + 1024

def recoveryGraceMs : UInt64 := 7 * 24 * 60 * 60 * 1000

/-- {lit}`u64::saturating_add`. -/
def saturatingAdd64 (left right : UInt64) : UInt64 := (checkedAdd left right).getD u64Max

/-- A snapshot that waits, and since when. -/
structure StagedRecovery where
  snapshot : RecoverySnapshot
  stagedAtMs : UInt64
  deriving DecidableEq, Repr

/-- Result of staging or advancing a recovery transition. -/
inductive RecoveryTransition where
  | promoted
  | evictionPending (oldestSnapshot stagedSnapshot : Hash32) (deadlineMs : UInt64)
  | unchanged
  deriving DecidableEq, Repr

/-- Two retained recovery slots, newest first, plus one persisted staged slot. -/
structure RecoverySlots where
  retained : List RecoverySnapshot
  staged : Option StagedRecovery
  deriving DecidableEq, Repr

namespace RecoverySlots

variable [Crypto]

def empty : RecoverySlots := ⟨[], none⟩

/-- Retained snapshots, then the staged one. -/
def held (slots : RecoverySlots) : List RecoverySnapshot :=
  slots.retained ++ (slots.staged.map StagedRecovery.snapshot).toList

/-! ## Operations -/

/-- The warning for the current staged snapshot. -/
def pendingTransition (slots : RecoverySlots) : Except ReplError RecoveryTransition :=
  match slots.staged, slots.retained.getLast? with
  | some staged, some oldest => do
    let oldestSnapshot ← oldest.id
    let stagedSnapshot ← staged.snapshot.id
    pure (.evictionPending oldestSnapshot stagedSnapshot
      (saturatingAdd64 staged.stagedAtMs recoveryGraceMs))
  | _, _ => .error .recoveryPending

/-- The staged snapshot has the given id. -/
def StagedAs (slots : RecoverySlots) (snapshotId : Hash32) : Prop :=
  ∃ staged ∈ slots.staged, staged.snapshot.id = .ok snapshotId

instance (slots : RecoverySlots) (snapshotId : Hash32) : Decidable (slots.StagedAs snapshotId) :=
  inferInstanceAs (Decidable (∃ staged ∈ slots.staged, _))

/-- Compare an incoming snapshot with the held ones. A retry of a held snapshot already has
its answer. -/
def scan (slots : RecoverySlots) (snapshot : RecoverySnapshot) (snapshotId : Hash32) :
    List RecoverySnapshot → Except ReplError (Option RecoveryTransition)
  | [] => .ok none
  | other :: rest => do
    if other.docType ≠ snapshot.docType ∨ other.logicalKey ≠ snapshot.logicalKey then
      throw .epochScope
    let otherId ← other.id
    if otherId = snapshotId then
      if slots.StagedAs snapshotId then some <$> slots.pendingTransition
      else pure (some .unchanged)
    else slots.scan snapshot snapshotId rest

/-- Stage a snapshot: a free retained slot promotes at once, a full pair waits. -/
def stage (slots : RecoverySlots) (snapshot : RecoverySnapshot) (nowMs : UInt64) :
    Except ReplError (RecoveryTransition × RecoverySlots) := do
  let _ ← snapshot.encode
  let snapshotId ← snapshot.id
  match ← slots.scan snapshot snapshotId slots.held with
  | some answer => pure (answer, slots)
  | none =>
    if slots.staged.isSome then throw .recoveryPending
    if slots.retained.length < 2 then
      pure (.promoted, { slots with retained := snapshot :: slots.retained })
    else
      match slots.retained.getLast? with
      -- Two retained snapshots have an oldest.
      | none => throw .recoveryPending
      | some oldest =>
        let oldestSnapshot ← oldest.id
        pure (.evictionPending oldestSnapshot snapshotId
            (saturatingAdd64 nowMs recoveryGraceMs),
          { slots with staged := some ⟨snapshot, nowMs⟩ })

/-- Promote the staged snapshot over the oldest retained one. -/
def promoteStaged (slots : RecoverySlots) : RecoveryTransition × RecoverySlots :=
  match slots.staged with
  | none => (.unchanged, slots)
  | some staged =>
    let kept := if slots.retained.length = 2 then slots.retained.dropLast else slots.retained
    (.promoted, ⟨staged.snapshot :: kept, none⟩)

/-- Acknowledge the warning. Both ids of the warning have to be echoed. -/
def acknowledgeEviction (slots : RecoverySlots) (expectedOldest expectedStaged : Hash32) :
    Except ReplError (RecoveryTransition × RecoverySlots) :=
  match slots.retained.getLast? with
  | none => .error .recoveryPending
  | some oldest => do
    let actualOldest ← oldest.id
    match slots.staged with
    | none => throw .recoveryPending
    | some staged =>
      let actualStaged ← staged.snapshot.id
      if actualOldest ≠ expectedOldest ∨ actualStaged ≠ expectedStaged then
        throw .recoveryPending
      pure slots.promoteStaged

/-- Advance once the grace period is over; otherwise leave the warning pending. -/
def advanceTime (slots : RecoverySlots) (nowMs : UInt64) : RecoveryTransition × RecoverySlots :=
  match slots.staged with
  | none => (.unchanged, slots)
  | some staged =>
    if nowMs < saturatingAdd64 staged.stagedAtMs recoveryGraceMs then (.unchanged, slots)
    else slots.promoteStaged

/-! ## Persistence -/

/-- A snapshot as a byte field. An encoded snapshot is short enough to be framed. -/
def putSnapshot (snapshot : RecoverySnapshot) : Except ReplError Bytes := do
  let bytes ← snapshot.encode
  pure (framed bytes)

/-- The bytes of a staged snapshot. -/
def putStaged : Option StagedRecovery → Except ReplError Bytes
  | none => .ok (putU8 0)
  | some staged => do
    let bytes ← putSnapshot staged.snapshot
    pure (putU8 1 ++ (putU64 staged.stagedAtMs ++ bytes))

/-- Canonical plaintext transition state. -/
def encode (slots : RecoverySlots) : Except ReplError Bytes := do
  if slots.retained.length > 2 ∨ (slots.staged.isSome ∧ slots.retained.length ≠ 2) then
    throw .malformed
  let retained ← slots.retained.mapM putSnapshot
  let staged ← putStaged slots.staged
  let bytes := putU8 1 ++ (putU8 (UInt8.ofNat slots.retained.length)
    ++ (retained.flatten ++ staged))
  if bytes.length > maxRecoverySlotsBytes then throw .epochBound
  pure bytes

def getStaged : Parser (Option StagedRecovery) := do
  let tag ← Decoder.orMalformed getU8
  if tag = 0 then pure none
  else if tag = 1 then
    let stagedAtMs ← Decoder.orMalformed getU64
    let snapshot ← getNested RecoverySnapshot.decode
    pure (some ⟨snapshot, stagedAtMs⟩)
  else throw .malformed

/-- Read the slots without the checks across them. -/
def get : Parser RecoverySlots := do
  let version ← Decoder.orMalformed getU8
  if version ≠ 1 then throw .malformed
  let count ← Decoder.orMalformed getU8
  if count.toNat > 2 then throw .malformed
  let retained ← Reader.times (getNested RecoverySnapshot.decode) count.toNat
  let staged ← getStaged
  Decoder.orMalformed finish
  pure ⟨retained, staged⟩

/-- One scope and no id twice. -/
def checkHeld (scope : Option (DocType × Bytes)) (ids : List Hash32) :
    List RecoverySnapshot → Except ReplError Unit
  | [] => .ok ()
  | snapshot :: rest => do
    if ∃ fixed ∈ scope, fixed ≠ (snapshot.docType, snapshot.logicalKey) then throw .malformed
    let snapshotId ← snapshot.id
    if snapshotId ∈ ids then throw .malformed
    checkHeld (some (scope.getD (snapshot.docType, snapshot.logicalKey))) (snapshotId :: ids) rest

/-- Restore a transition after a crash, with the exact staged step. -/
def decode (bytes : Bytes) : Except ReplError RecoverySlots := do
  if bytes.length > maxRecoverySlotsBytes then throw .epochBound
  let slots ← Parser.parse get bytes
  checkHeld none [] slots.held
  let canonical ← slots.encode
  if canonical ≠ bytes then throw .malformed
  pure slots

/-! ## Sound slots -/

/-- Two snapshots belong to one logical document. -/
def SameScope (left right : RecoverySnapshot) : Prop :=
  left.docType = right.docType ∧ left.logicalKey = right.logicalKey

/-- What every reachable state of the slots satisfies. -/
structure Sound (slots : RecoverySlots) : Prop where
  retained_le : slots.retained.length ≤ 2
  staged_full : slots.staged.isSome → slots.retained.length = 2
  encodes : ∀ snapshot ∈ slots.held, snapshot.WellFormed
  scope : ∀ left ∈ slots.held, ∀ right ∈ slots.held, SameScope left right
  ids : (slots.held.map RecoverySnapshot.id).Nodup

theorem sound_empty : Sound (empty : RecoverySlots) where
  retained_le := by simp [empty]
  staged_full := by simp [empty]
  encodes := by simp [empty, held]
  scope := by simp [empty, held]
  ids := by simp [empty, held]

variable {snapshot : RecoverySnapshot} {slots : RecoverySlots}

theorem id_of_wellFormed (h : snapshot.WellFormed) :
    snapshot.id = .ok (hashParts "catcoms-recovery:v1" [snapshot.put]) := by
  rw [RecoverySnapshot.id, RecoverySnapshot.encode_eq_ok.mpr ⟨h, rfl⟩]
  rfl

theorem wellFormed_of_id {snapshotId : Hash32} (h : snapshot.id = .ok snapshotId) :
    snapshot.WellFormed := by
  rcases bind_eq_ok.mp h with ⟨bytes, hbytes, -⟩
  exact (RecoverySnapshot.encode_eq_ok.mp hbytes).1

/-! ## Reading the slots back -/

omit [Crypto] in
theorem putSnapshot_of_wellFormed (h : snapshot.WellFormed) :
    putSnapshot snapshot = .ok (framed snapshot.put) := by
  rw [putSnapshot, RecoverySnapshot.encode_eq_ok.mpr ⟨h, rfl⟩]
  rfl

variable {snapshots : List RecoverySnapshot}

/-- The bytes of the staged slot. -/
def stagedBytes : Option StagedRecovery → Bytes
  | none => putU8 0
  | some staged => putU8 1 ++ (putU64 staged.stagedAtMs ++ framed staged.snapshot.put)

/-- The bytes of slots whose snapshots all encode. -/
def slotBytes (slots : RecoverySlots) : Bytes :=
  putU8 1 ++ (putU8 (UInt8.ofNat slots.retained.length)
    ++ (slots.retained.flatMap (fun snapshot => framed snapshot.put) ++ stagedBytes slots.staged))

omit [Crypto] in
theorem putStaged_of_wellFormed {staged : Option StagedRecovery}
    (h : ∀ entry ∈ staged, entry.snapshot.WellFormed) :
    putStaged staged = .ok (stagedBytes staged) := by
  cases staged with
  | none => rfl
  | some entry =>
    rw [putStaged, putSnapshot_of_wellFormed (h entry rfl)]
    rfl

theorem Sound.retained_wellFormed (h : slots.Sound) :
    ∀ snapshot ∈ slots.retained, snapshot.WellFormed :=
  fun snapshot hmem => h.encodes snapshot (List.mem_append_left _ hmem)

theorem Sound.staged_wellFormed (h : slots.Sound) :
    ∀ entry ∈ slots.staged, entry.snapshot.WellFormed := by
  intro entry hmem
  refine h.encodes entry.snapshot (List.mem_append_right _ ?_)
  rw [Option.mem_def] at hmem
  simp [hmem]

omit [Crypto] in
theorem length_retained_le (h : ∀ snapshot ∈ snapshots, snapshot.WellFormed) :
    (snapshots.flatMap fun snapshot => framed snapshot.put).length
      ≤ snapshots.length * (4 + maxRecoverySnapshotBytes) := by
  induction snapshots with
  | nil => simp
  | cons snapshot snapshots ih =>
    have hsize := (h snapshot (by simp)).size
    have hrest := ih fun other hmem => h other (by simp [hmem])
    rw [List.flatMap_cons, List.length_append, length_framed, List.length_cons, Nat.succ_mul]
    omega

omit [Crypto] in
theorem length_stagedBytes_le {staged : Option StagedRecovery}
    (h : ∀ entry ∈ staged, entry.snapshot.WellFormed) :
    (stagedBytes staged).length ≤ 13 + maxRecoverySnapshotBytes := by
  cases staged with
  | none =>
    rw [stagedBytes, length_putU8]
    omega
  | some entry =>
    have hsize := (h entry rfl).size
    simp only [stagedBytes, List.length_append, length_putU8, length_putU64, length_framed]
    omega

omit [Crypto] in
/-- Two framed fields and a staged one stay below three fields and the slack. -/
theorem three_fields_le {cap count front back : Nat} (hfront : front ≤ count * (4 + cap))
    (hcount : count ≤ 2) (hback : back ≤ 13 + cap) : 2 + front + back ≤ 3 * cap + 1024 := by
  have hmul : count * (4 + cap) ≤ 2 * (4 + cap) := Nat.mul_le_mul_right _ hcount
  omega

/-- Sound slots fit their cap. -/
theorem Sound.length_slotBytes_le (h : slots.Sound) :
    slots.slotBytes.length ≤ maxRecoverySlotsBytes := by
  have hretained := length_retained_le h.retained_wellFormed
  have hstaged := length_stagedBytes_le h.staged_wellFormed
  have hle := h.retained_le
  have hlen : slots.slotBytes.length
      = 2 + (slots.retained.flatMap fun snapshot => framed snapshot.put).length
        + (stagedBytes slots.staged).length := by
    simp only [slotBytes, List.length_append, length_putU8]
    omega
  rw [hlen]
  exact three_fields_le hretained hle hstaged

/-- Sound slots always encode. -/
theorem Sound.encode_eq (h : slots.Sound) :
    slots.encode = .ok slots.slotBytes := by
  have hshape : ¬ (slots.retained.length > 2 ∨
      (slots.staged.isSome ∧ slots.retained.length ≠ 2)) := by
    rintro (hlong | ⟨hsome, hcount⟩)
    · exact Nat.not_lt.mpr h.retained_le hlong
    · exact hcount (h.staged_full hsome)
  have hflatten : (slots.retained.map fun snapshot => framed snapshot.put).flatten
      = slots.retained.flatMap fun snapshot => framed snapshot.put := rfl
  have hlen := h.length_slotBytes_le
  rw [slotBytes] at hlen
  rw [encode, if_neg hshape, mapM_eq_ok_map fun snapshot hmem =>
      putSnapshot_of_wellFormed (h.retained_wellFormed snapshot hmem), ok_bind,
    putStaged_of_wellFormed h.staged_wellFormed, ok_bind, hflatten]
  dsimp only
  rw [if_neg (Nat.not_lt.mpr hlen)]
  rfl

omit [Crypto] in
theorem getNested_snapshot (h : snapshot.WellFormed) :
    Reads (getNested RecoverySnapshot.decode) (framed snapshot.put) snapshot := by
  have hsize := h.size
  unfold maxRecoverySnapshotBytes at hsize
  exact getNested_framed (by omega)
    (RecoverySnapshot.decode_of_encode (RecoverySnapshot.encode_eq_ok.mpr ⟨h, rfl⟩))

omit [Crypto] in
theorem getStaged_stagedBytes {staged : Option StagedRecovery}
    (h : ∀ entry ∈ staged, entry.snapshot.WellFormed) :
    Reads getStaged (stagedBytes staged) staged := by
  cases staged with
  | none => simp [reads_iff, getStaged, stagedBytes]
  | some entry =>
    simp [reads_iff, getStaged, stagedBytes, (getNested_snapshot (h entry rfl)).accepts]

theorem Sound.parse_get (h : slots.Sound) :
    Parser.parse get slots.slotBytes = .ok slots := by
  have hcount : (UInt8.ofNat slots.retained.length).toNat = slots.retained.length := by
    have hle := h.retained_le
    rw [UInt8.toNat_ofNat']
    omega
  have hretained : Reads (Reader.times (getNested RecoverySnapshot.decode) slots.retained.length)
      (slots.retained.flatMap fun snapshot => framed snapshot.put) slots.retained :=
    Reads.times fun snapshot hmem => getNested_snapshot (h.retained_wellFormed snapshot hmem)
  have hread : Accepts get slots.slotBytes slots [] := by
    simp [get, slotBytes, hcount, h.retained_le, hretained.accepts,
      (getStaged_stagedBytes h.staged_wellFormed).accepts_nil, accepts_finish]
  rw [Parser.parse, hread]
  rfl

/-- The checks across the held snapshots pass when they share a scope and no id occurs twice. -/
theorem checkHeld_of_nodup {scope : Option (DocType × Bytes)} {ids : List Hash32}
    (hencodes : ∀ snapshot ∈ snapshots, snapshot.WellFormed)
    (hscope : ∀ snapshot ∈ snapshots, ∀ fixed ∈ scope,
      fixed = (snapshot.docType, snapshot.logicalKey))
    (hsame : ∀ left ∈ snapshots, ∀ right ∈ snapshots, SameScope left right)
    (hfresh : ∀ snapshot ∈ snapshots, ∀ snapshotId ∈ ids, snapshot.id ≠ .ok snapshotId)
    (hids : (snapshots.map RecoverySnapshot.id).Nodup) :
    checkHeld scope ids snapshots = .ok () := by
  induction snapshots generalizing scope ids with
  | nil => rfl
  | cons snapshot rest ih =>
    have hfirst : ¬ ∃ fixed ∈ scope, fixed ≠ (snapshot.docType, snapshot.logicalKey) := by
      rintro ⟨fixed, hmem, hne⟩
      exact hne (hscope snapshot (by simp) fixed hmem)
    have hid := id_of_wellFormed (hencodes snapshot (by simp))
    have hnew : hashParts "catcoms-recovery:v1" [snapshot.put] ∉ ids :=
      fun hmem => hfresh snapshot (by simp) _ hmem hid
    rw [List.map_cons, List.nodup_cons] at hids
    rw [checkHeld, if_neg hfirst, hid, ok_bind, if_neg hnew]
    refine ih (fun other hmem => hencodes other (by simp [hmem])) ?_
      (fun left hleft right hright => hsame left (by simp [hleft]) right (by simp [hright])) ?_
      hids.2
    · intro other hmem fixed hfixed
      rcases hsame snapshot (by simp) other (by simp [hmem]) with ⟨htype, hkey⟩
      rw [Option.mem_def, Option.some.injEq] at hfixed
      cases hold : scope with
      | none =>
        rw [hold] at hfixed
        rw [← hfixed, Option.getD_none, htype, hkey]
      | some old =>
        rw [hold] at hfixed
        rw [← hfixed, Option.getD_some]
        exact hscope other (by simp [hmem]) old hold
    · intro other hmem snapshotId hold
      rcases List.mem_cons.mp hold with rfl | hold
      · intro hother
        exact hids.1 (List.mem_map.mpr ⟨other, hmem, by rw [hother, hid]⟩)
      · exact hfresh other (by simp [hmem]) snapshotId hold

/-- Sound slots are read back, with the staged step as it was. -/
theorem Sound.decode_encode (h : slots.Sound) :
    decode slots.slotBytes = .ok slots := by
  have hheld : checkHeld none [] slots.held = .ok () :=
    checkHeld_of_nodup h.encodes (by simp) h.scope (by simp) h.ids
  rw [decode, if_neg (Nat.not_lt.mpr h.length_slotBytes_le), h.parse_get, ok_bind, hheld,
    ok_bind, h.encode_eq, ok_bind, if_neg (not_not.mpr rfl)]
  rfl

/-! ## Runs -/

/-- One call on the slots, or a restart from the persisted bytes. -/
inductive Event where
  | stage (snapshot : RecoverySnapshot) (nowMs : UInt64)
  | acknowledge (expectedOldest expectedStaged : Hash32)
  | advance (nowMs : UInt64)
  | restart

/-- The slots after a fallible operation. -/
def settled {α : Type} (slots : RecoverySlots) :
    Except ReplError (α × RecoverySlots) → RecoverySlots
  | .ok (_, next) => next
  | .error _ => slots

/-- The slots after one event. -/
def step (slots : RecoverySlots) : Event → RecoverySlots
  | .stage snapshot nowMs => slots.settled (slots.stage snapshot nowMs)
  | .acknowledge expectedOldest expectedStaged =>
    slots.settled (slots.acknowledgeEviction expectedOldest expectedStaged)
  | .advance nowMs => (slots.advanceTime nowMs).2
  | .restart => slots.settled ((slots.encode >>= decode).map fun next => ((), next))

/-- The snapshot is new to the slots and belongs to their document. -/
structure Fresh (slots : RecoverySlots) (snapshot : RecoverySnapshot) : Prop where
  encodes : snapshot.WellFormed
  scope : ∀ other ∈ slots.held, SameScope other snapshot
  id_ne : ∀ other ∈ slots.held, other.id ≠ snapshot.id

/-- Everything an event can do to the slots. -/
inductive Moves (slots : RecoverySlots) : Event → RecoverySlots → Prop where
  | kept (event : Event) : Moves slots event slots
  | promoted {snapshot : RecoverySnapshot} (nowMs : UInt64) (hfresh : slots.Fresh snapshot)
      (hfree : slots.retained.length < 2) (hstaged : slots.staged = none) :
      Moves slots (.stage snapshot nowMs) { slots with retained := snapshot :: slots.retained }
  | staged {snapshot : RecoverySnapshot} (nowMs : UInt64) (hfresh : slots.Fresh snapshot)
      (hfull : ¬ slots.retained.length < 2) (hstaged : slots.staged = none) :
      Moves slots (.stage snapshot nowMs) { slots with staged := some ⟨snapshot, nowMs⟩ }
  | acknowledged {oldest : RecoverySnapshot} {staged : StagedRecovery} {oldestId stagedId : Hash32}
      (holdest : slots.retained.getLast? = some oldest) (hstaged : slots.staged = some staged)
      (holdestId : oldest.id = .ok oldestId) (hstagedId : staged.snapshot.id = .ok stagedId) :
      Moves slots (.acknowledge oldestId stagedId) slots.promoteStaged.2
  | advanced {staged : StagedRecovery} {nowMs : UInt64} (hstaged : slots.staged = some staged)
      (hgrace : saturatingAdd64 staged.stagedAtMs recoveryGraceMs ≤ nowMs) :
      Moves slots (.advance nowMs) slots.promoteStaged.2

/-- A scan without an answer met no other scope and no equal id. -/
theorem scan_eq_none {snapshotId : Hash32} {list : List RecoverySnapshot}
    (h : slots.scan snapshot snapshotId list = .ok none) :
    ∀ other ∈ list, SameScope other snapshot ∧ other.id ≠ .ok snapshotId := by
  induction list with
  | nil => simp
  | cons first rest ih =>
    unfold scan at h
    rcases guard_eq_ok.mp h with ⟨hscope, h⟩
    rcases bind_eq_ok.mp h with ⟨firstId, hfirst, h⟩
    by_cases hsame : firstId = snapshotId
    · rw [if_pos hsame] at h
      split at h
      · rcases hpending : slots.pendingTransition with error | answer
        · rw [hpending] at h
          cases h
        · rw [hpending] at h
          cases h
      · cases h
    · rw [if_neg hsame] at h
      simp only [not_or, not_not, ne_eq] at hscope
      intro other hmem
      rcases List.mem_cons.mp hmem with rfl | hrest
      · refine ⟨hscope, ?_⟩
        rw [hfirst]
        simpa using hsame
      · exact ih h other hrest

theorem stage_moves (slots : RecoverySlots) (snapshot : RecoverySnapshot) (nowMs : UInt64) :
    Moves slots (.stage snapshot nowMs) (slots.settled (slots.stage snapshot nowMs)) := by
  rcases hstage : slots.stage snapshot nowMs with error | ⟨answer, next⟩
  · exact .kept _
  · change Moves slots (.stage snapshot nowMs) next
    unfold stage at hstage
    rcases bind_eq_ok.mp hstage with ⟨bytes, hbytes, hstage⟩
    rcases bind_eq_ok.mp hstage with ⟨snapshotId, hid, hstage⟩
    rcases bind_eq_ok.mp hstage with ⟨found, hscan, hstage⟩
    cases found with
    | some found =>
      cases hstage
      exact .kept _
    | none =>
      have hfresh : slots.Fresh snapshot := by
        refine ⟨wellFormed_of_id hid, ?_, ?_⟩
        · exact fun other hmem => (scan_eq_none hscan other hmem).1
        · rw [hid]
          exact fun other hmem => (scan_eq_none hscan other hmem).2
      rcases guard_eq_ok.mp hstage with ⟨hstaged, hstage⟩
      rw [Bool.not_eq_true, Option.isSome_eq_false_iff, Option.isNone_iff_eq_none] at hstaged
      by_cases hfree : slots.retained.length < 2
      · rw [if_pos hfree] at hstage
        cases hstage
        exact .promoted nowMs hfresh hfree hstaged
      · rw [if_neg hfree] at hstage
        cases holdest : slots.retained.getLast? with
        | none =>
          rw [holdest] at hstage
          cases hstage
        | some oldest =>
          rw [holdest] at hstage
          rcases bind_eq_ok.mp hstage with ⟨oldestId, -, hstage⟩
          cases hstage
          exact .staged nowMs hfresh hfree hstaged

theorem acknowledge_moves (slots : RecoverySlots) (expectedOldest expectedStaged : Hash32) :
    Moves slots (.acknowledge expectedOldest expectedStaged)
      (slots.settled (slots.acknowledgeEviction expectedOldest expectedStaged)) := by
  rcases hack : slots.acknowledgeEviction expectedOldest expectedStaged with error | ⟨answer, next⟩
  · exact .kept _
  · change Moves slots (.acknowledge expectedOldest expectedStaged) next
    unfold acknowledgeEviction at hack
    cases holdest : slots.retained.getLast? with
    | none =>
      rw [holdest] at hack
      cases hack
    | some oldest =>
      rw [holdest] at hack
      rcases bind_eq_ok.mp hack with ⟨oldestId, holdestId, hack⟩
      cases hstaged : slots.staged with
      | none =>
        rw [hstaged] at hack
        cases hack
      | some staged =>
        rw [hstaged] at hack
        rcases bind_eq_ok.mp hack with ⟨stagedId, hstagedId, hack⟩
        rcases guard_eq_ok.mp hack with ⟨hsame, hdone⟩
        simp only [not_or, not_not, ne_eq] at hsame
        rcases hsame with ⟨rfl, rfl⟩
        have hnext : next = slots.promoteStaged.2 := by
          have hpair := Except.ok.inj hdone
          rw [hpair]
        rw [hnext]
        exact .acknowledged holdest hstaged holdestId hstagedId

theorem advance_moves (slots : RecoverySlots) (nowMs : UInt64) :
    Moves slots (.advance nowMs) (slots.advanceTime nowMs).2 := by
  unfold advanceTime
  cases hstaged : slots.staged with
  | none => exact .kept _
  | some staged =>
    dsimp only
    split <;> rename_i hgrace
    · exact .kept _
    · exact .advanced hstaged (UInt64.not_lt.mp hgrace)

section

variable (h : slots.Sound)

include h

/-- Everything an event does to sound slots. -/
theorem step_moves (event : Event) :
    Moves slots event (slots.step event) := by
  cases event with
  | stage snapshot nowMs => exact stage_moves slots snapshot nowMs
  | acknowledge expectedOldest expectedStaged =>
    exact acknowledge_moves slots expectedOldest expectedStaged
  | advance nowMs => exact advance_moves slots nowMs
  | restart =>
    have hrestart : slots.step .restart = slots := by
      rw [step, h.encode_eq, ok_bind, h.decode_encode]
      rfl
    rw [hrestart]
    exact .kept _

/-- Behind a staged snapshot there is a retained pair, and promotion replaces its older half. -/
theorem Sound.pair {staged : StagedRecovery}
    (hstaged : slots.staged = some staged) :
    ∃ newer older, slots.retained = [newer, older] ∧
      slots.promoteStaged.2 = ⟨[staged.snapshot, newer], none⟩ := by
  obtain ⟨newer, older, hretained⟩ := List.length_eq_two.mp (h.staged_full (by simp [hstaged]))
  exact ⟨newer, older, hretained, by simp [promoteStaged, hstaged, hretained]⟩

theorem Sound.promote {staged : StagedRecovery}
    (hstaged : slots.staged = some staged) : slots.promoteStaged.2.Sound := by
  obtain ⟨newer, older, hretained, hnext⟩ := h.pair hstaged
  have hheld : slots.held.Perm (older :: slots.promoteStaged.2.held) := by
    rw [held, held, hretained, hstaged, hnext]
    show ([newer] ++ [older, staged.snapshot]).Perm _
    exact List.perm_append_comm
  have hmem : ∀ other ∈ slots.promoteStaged.2.held, other ∈ slots.held :=
    fun other hother => hheld.mem_iff.mpr (List.mem_cons_of_mem _ hother)
  refine ⟨by simp [hnext], by simp [hnext], fun other hother => h.encodes other (hmem other hother),
    fun left hleft right hright => h.scope left (hmem left hleft) right (hmem right hright), ?_⟩
  exact ((hheld.map _).nodup_iff.mp h.ids).of_cons

/-- A retained snapshot that a promotion removes is the oldest one. -/
theorem Sound.evicted {staged : StagedRecovery}
    (hstaged : slots.staged = some staged) (hmem : snapshot ∈ slots.retained)
    (hgone : snapshot ∉ slots.promoteStaged.2.retained) :
    slots.retained.getLast? = some snapshot ∧
      staged.snapshot ∈ slots.promoteStaged.2.retained := by
  obtain ⟨newer, older, hretained, hnext⟩ := h.pair hstaged
  rw [hnext] at hgone ⊢
  rw [hretained] at hmem ⊢
  simp only [List.mem_cons, List.not_mem_nil, or_false, not_or] at hmem hgone
  rw [hmem.resolve_left hgone.2]
  exact ⟨rfl, by simp⟩

/-- A fresh snapshot keeps the slots sound wherever it is put. -/
theorem Sound.insert {next : RecoverySlots} (hfresh : slots.Fresh snapshot)
    (hheld : next.held.Perm (snapshot :: slots.held)) (hretained : next.retained.length ≤ 2)
    (hstaged : next.staged.isSome → next.retained.length = 2) : next.Sound where
  retained_le := hretained
  staged_full := hstaged
  encodes := by
    intro other hmem
    rcases List.mem_cons.mp (hheld.mem_iff.mp hmem) with rfl | hold
    · exact hfresh.encodes
    · exact h.encodes other hold
  scope := by
    intro left hleft right hright
    rcases List.mem_cons.mp (hheld.mem_iff.mp hleft) with rfl | hleft
    · rcases List.mem_cons.mp (hheld.mem_iff.mp hright) with rfl | hright
      · exact ⟨rfl, rfl⟩
      · rcases hfresh.scope right hright with ⟨htype, hkey⟩
        exact ⟨htype.symm, hkey.symm⟩
    · rcases List.mem_cons.mp (hheld.mem_iff.mp hright) with rfl | hright
      · exact hfresh.scope left hleft
      · exact h.scope left hleft right hright
  ids := by
    rw [(hheld.map _).nodup_iff, List.map_cons, List.nodup_cons]
    refine ⟨?_, h.ids⟩
    intro hmem
    rcases List.mem_map.mp hmem with ⟨other, hother, heq⟩
    exact hfresh.id_ne other hother heq

/-- An event keeps the slots sound. -/
theorem Sound.moves {next : RecoverySlots} {event : Event}
    (hmoves : Moves slots event next) : next.Sound := by
  cases hmoves with
  | kept => exact h
  | promoted nowMs hfresh hfree hstaged =>
    refine h.insert hfresh (List.Perm.refl _) ?_ (by simp [hstaged])
    rw [List.length_cons]
    omega
  | staged nowMs hfresh hfull hstaged =>
    refine h.insert hfresh ?_ h.retained_le ?_
    · simp [held, hstaged]
    · intro _
      exact Nat.le_antisymm h.retained_le (Nat.not_lt.mp hfull)
  | acknowledged _ hstaged | advanced hstaged => exact h.promote hstaged

end

/-! ## Evidence along a run -/

/-- The slot has been staged by the given call ever since an event of the run. -/
def StagedSince (events : List Event) (staged : StagedRecovery) : Prop :=
  ∃ before later, events = before ++ .stage staged.snapshot staged.stagedAtMs :: later ∧
    (run step empty before).staged = none ∧
    ∀ front, front <+: later →
      (run step empty (before ++ .stage staged.snapshot staged.stagedAtMs :: front)).staged
        = some staged

theorem StagedSince.concat {past : List Event} {event : Event} {staged : StagedRecovery}
    (h : StagedSince past staged)
    (hstep : (run step empty (past ++ [event])).staged = some staged) :
    StagedSince (past ++ [event]) staged := by
  rcases h with ⟨before, later, hpast, hbefore, hsince⟩
  refine ⟨before, later ++ [event], by rw [hpast]; simp, hbefore, ?_⟩
  intro front hfront
  rcases List.prefix_concat_iff.mp hfront with heq | hlater
  · rw [hpast, List.append_assoc, List.cons_append] at hstep
    rw [heq]
    exact hstep
  · exact hsince front hlater

theorem stagedSince_now {past : List Event} {nowMs : UInt64}
    (hbefore : (run step empty past).staged = none)
    (hstep : (run step empty (past ++ [.stage snapshot nowMs])).staged = some ⟨snapshot, nowMs⟩) :
    StagedSince (past ++ [.stage snapshot nowMs]) ⟨snapshot, nowMs⟩ := by
  refine ⟨past, [], rfl, hbefore, ?_⟩
  intro front hfront
  rw [List.prefix_nil.mp hfront]
  exact hstep

/-- Every reachable state is sound, and a staged snapshot is the one its event staged. -/
theorem run_sound (events : List Event) :
    (run step empty events).Sound ∧
      ∀ staged ∈ (run step empty events).staged, StagedSince events staged := by
  refine run_induction (fun _ => True)
    (fun past (slots : RecoverySlots) => slots.Sound ∧
      ∀ staged ∈ slots.staged, StagedSince past staged) (fun _ _ _ => trivial)
    ⟨sound_empty, by simp [empty]⟩ ?_ events trivial
  rintro past event - ⟨hsound, hsince⟩
  have hmoves := step_moves hsound event
  refine ⟨hsound.moves hmoves, ?_⟩
  intro staged hstaged
  have hrun := run_concat step empty past event
  generalize hnext : (run step empty past).step event = next at hmoves hstaged hrun
  cases hmoves with
  | kept =>
    refine (hsince staged hstaged).concat ?_
    rw [hrun]
    exact hstaged
  | promoted nowMs hfresh hfree hnone =>
    rw [Option.mem_def, hnone] at hstaged
    cases hstaged
  | staged nowMs hfresh hfull hnone =>
    cases hstaged
    refine stagedSince_now hnone ?_
    rw [hrun]
  | acknowledged hlast hslot | advanced hslot =>
    obtain ⟨newer, older, -, hpromoted⟩ := hsound.pair hslot
    rw [hpromoted] at hstaged
    cases hstaged

/-- The reasons for which a retained snapshot may leave the slots: the exact warning was
acknowledged, or the snapshot that replaces it has waited out the grace period. -/
def Released (slots : RecoverySlots) (event : Event) (snapshot : RecoverySnapshot) : Prop :=
  slots.retained.getLast? = some snapshot ∧
    ∃ staged, slots.staged = some staged ∧ staged.snapshot ∈ (slots.step event).retained ∧
      ((∃ oldestId stagedId, event = .acknowledge oldestId stagedId ∧
          snapshot.id = .ok oldestId ∧ staged.snapshot.id = .ok stagedId) ∨
        ∃ nowMs, event = .advance nowMs ∧
          saturatingAdd64 staged.stagedAtMs recoveryGraceMs ≤ nowMs)

/-- A retained snapshot leaves only with a reason. -/
theorem Sound.released (h : slots.Sound) {event : Event} (hmem : snapshot ∈ slots.retained)
    (hgone : snapshot ∉ (slots.step event).retained) : slots.Released event snapshot := by
  have hmoves := step_moves h event
  unfold Released
  generalize slots.step event = next at hmoves hgone
  cases hmoves with
  | kept | staged => exact absurd hmem hgone
  | promoted => exact absurd (List.mem_cons_of_mem _ hmem) hgone
  | acknowledged hlast hstaged hlastId hstagedId =>
    obtain ⟨holdest, hin⟩ := h.evicted hstaged hmem hgone
    cases hlast.symm.trans holdest
    exact ⟨holdest, _, hstaged, hin, .inl ⟨_, _, rfl, hlastId, hstagedId⟩⟩
  | advanced hstaged hgrace =>
    obtain ⟨holdest, hin⟩ := h.evicted hstaged hmem hgone
    exact ⟨holdest, _, hstaged, hin, .inr ⟨_, rfl, hgrace⟩⟩

/-- A staged snapshot stays in the slots. -/
theorem Sound.staged_held (h : slots.Sound) (event : Event) {staged : StagedRecovery}
    (hstaged : slots.staged = some staged) :
    staged.snapshot ∈ (slots.step event).held := by
  have hmoves := step_moves h event
  generalize slots.step event = next at hmoves
  cases hmoves with
  | kept => simp [held, hstaged]
  | promoted nowMs hfresh hfree hnone | staged nowMs hfresh hfull hnone =>
    rw [hstaged] at hnone
    cases hnone
  | acknowledged hlast hslot | advanced hslot =>
    obtain ⟨newer, older, -, hpromoted⟩ := h.pair hstaged
    rw [hpromoted]
    simp [held]

/-- Recovery evidence is never dropped silently. After every run at most two snapshots are
retained and a third is staged only behind two, all of one scope and with distinct ids; the
slots encode within their cap and are read back, with the time at which the staged snapshot
was staged. In the next step a retained snapshot leaves only for a reason, and a staged one
never does. -/
theorem evidence_never_dropped (events : List Event) :
    let slots := run step empty events
    slots.retained.length ≤ 2 ∧
      (slots.staged.isSome → slots.retained.length = 2) ∧
      (∀ left ∈ slots.held, ∀ right ∈ slots.held, SameScope left right) ∧
      ((∀ snapshot ∈ slots.held, ∃ snapshotId, snapshot.id = .ok snapshotId) ∧
        (slots.held.map RecoverySnapshot.id).Nodup) ∧
      (∃ bytes, slots.encode = .ok bytes ∧ bytes.length ≤ maxRecoverySlotsBytes ∧
        decode bytes = .ok slots) ∧
      (∀ staged ∈ slots.staged, StagedSince events staged) ∧
      (∀ event, ∀ snapshot ∈ slots.retained, snapshot ∉ (slots.step event).retained →
        slots.Released event snapshot) ∧
      (∀ event, ∀ staged ∈ slots.staged, staged.snapshot ∈ (slots.step event).held) := by
  rcases run_sound events with ⟨hsound, hsince⟩
  refine ⟨hsound.retained_le, hsound.staged_full, hsound.scope, ⟨?_, hsound.ids⟩, ?_, hsince, ?_,
    ?_⟩
  · exact fun snapshot hmem => ⟨_, id_of_wellFormed (hsound.encodes snapshot hmem)⟩
  · exact ⟨_, hsound.encode_eq, hsound.length_slotBytes_le, hsound.decode_encode⟩
  · exact fun event snapshot hmem hgone => hsound.released hmem hgone
  · exact fun event staged hstaged => hsound.staged_held event hstaged

end RecoverySlots

end Mewtual
