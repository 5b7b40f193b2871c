import Mewtual.Lib.Machine
import Mewtual.FileService.Wire
import Mewtual.Lib.RateWindow
import Mewtual.Lib.TreeMap

/-!
# File-service admission

The process-wide ledger that decides which file-service requests run. Every call samples the
clock under the ledger's lock, so a call is one step on its state. Ingress is charged before any
signature is checked; a commit publishes the nonce of a verified grant and all its work debits
together.

Times are the numbers of their {lit}`u64`, and every addition that the source checks is checked
here against the same bound.

Main results:

- Theorem {lit}`Admission.State.observe_spec`: what sampling the clock does.
- Theorem {lit}`Admission.State.check_spec`: what the policy checks establish.
-/

namespace Mewtual

namespace Admission

open Std

def freshMs : Nat := 20000

def replayMs : Nat := 40000

def effectMs : Nat := 8000

def windowMs : Nat := 1000

def maxReplayGroup : Nat := 1024

def maxReplayProcess : Nat := 4096

def maxDevices : Nat := 1024

def maxGroups : Nat := 64

def mib : Nat := 1024 * 1024

/-- {lit}`u64::abs_diff`. -/
def absDiff (left right : Nat) : Nat := if left ≤ right then right - left else left - right

/-- The side of a grant that this device is on. -/
inductive Role where
  | helper
  | source
  deriving DecidableEq, Repr

/-- Native endpoint evidence. -/
structure ServicePeer where
  device : DeviceId
  peer : PeerId
  deriving DecidableEq, Repr

/-- The group, the epoch and the local peer of a call. -/
structure ServiceScope where
  group : Bytes
  epoch : UInt64
  localPeer : ServicePeer

/-- Why a request is refused. -/
inductive AdmissionError where
  | bounds | scope | signature | clock | expired | unfresh | busy | replay | nonceChanged
  deriving DecidableEq, Repr

/-! ## Time -/

/-- One reading of the clock. The wall clock may jump. -/
structure Reading where
  monotonicMs : UInt64
  nowMs : UInt64

structure Time where
  mono : Nat
  wall : Nat
  deriving DecidableEq, Repr

/-- The last time that was accepted, and whether a reading was refused. -/
structure TimeFloor where
  previous : Option Time
  poisoned : Bool

namespace TimeFloor

/-- The effective wall time: never behind what the monotonic clock has added. -/
def effective (floor : TimeFloor) (clock : Reading) : Option Nat :=
  match floor.previous with
  | none => some clock.nowMs.toNat
  | some old =>
    if old.mono ≤ clock.monotonicMs.toNat then
      (checkedAddNat old.wall (clock.monotonicMs.toNat - old.mono)).map (max · clock.nowMs.toNat)
    else none

/-- Take a reading of the clock; one that is refused poisons the floor. -/
def observe (floor : TimeFloor) (clock : Reading) : Except AdmissionError Time × TimeFloor :=
  if floor.poisoned then (.error .clock, floor)
  else match floor.effective clock with
    | none => (.error .clock, { floor with poisoned := true })
    | some wall =>
      let time : Time := ⟨clock.monotonicMs.toNat, wall⟩
      (.ok time, { floor with previous := some time })

end TimeFloor

/-! ## Windows -/

/-- A table of rate windows with a bound on its rows and on each row. -/
structure Windows (κ : Type) [Ord κ] where
  rows : ExtTreeMap κ Window
  cap : Nat
  limit : Nat

namespace Windows

variable {κ : Type} [Ord κ] [TransOrd κ]

def new (cap limit : Nat) : Windows κ := ⟨∅, cap, limit⟩

/-- Forget windows that have ended. -/
def prune (windows : Windows κ) (now : Nat) : Windows κ :=
  { windows with rows := windows.rows.filter fun _ row => now < row.expires }

/-- A key has room for an amount in its window. -/
def Allows (windows : Windows κ) (key : κ) (amount : Nat) : Prop :=
  match windows.rows[key]? with
  | some row => ∃ total ∈ checkedAddNat row.used amount, total ≤ windows.limit
  | none => windows.rows.size < windows.cap ∧ amount ≤ windows.limit

instance (windows : Windows κ) (key : κ) (amount : Nat) :
    Decidable (windows.Allows key amount) := by
  unfold Allows
  split
  · exact inferInstanceAs (Decidable (∃ total ∈ checkedAddNat _ _, _))
  · infer_instance

/-- Charge the row of a key; a missing row is opened. -/
def charge (windows : Windows κ) (key : κ) (amount expires : Nat) : Windows κ :=
  let row := windows.rows[key]?.getD ⟨expires, 0⟩
  { windows with rows := windows.rows.insert key { row with used := row.used + amount } }

/-- Charge several rows one after the other. -/
def chargeAll (windows : Windows κ) (keys : List κ) (amount expires : Nat) : Windows κ :=
  keys.foldl (fun windows key => windows.charge key amount expires) windows

section Rows

variable (windows : Windows κ) (now : Nat) (key : κ) (keys : List κ) (amount expires : Nat)

omit [TransOrd κ] in
@[simp] theorem prune_limit : (windows.prune now).limit = windows.limit := rfl

@[simp] theorem charge_cap : (windows.charge key amount expires).cap = windows.cap := rfl

theorem chargeAll_cap : (windows.chargeAll keys amount expires).cap = windows.cap := by
  induction keys generalizing windows with
  | nil => rfl
  | cons key keys ih => exact ih (windows.charge key amount expires)

theorem chargeAll_limit : (windows.chargeAll keys amount expires).limit = windows.limit := by
  induction keys generalizing windows with
  | nil => rfl
  | cons key keys ih => exact ih (windows.charge key amount expires)

/-- Pruning drops exactly the expired rows. -/
theorem rows_prune :
    (windows.prune now).rows[key]? = windows.rows[key]?.filter fun row => now < row.expires := by
  simp [prune]

theorem size_prune_le : (windows.prune now).rows.size ≤ windows.rows.size :=
  ExtTreeMap.size_filter_le_size

/-- The row of a key after a charge. -/
def charged (row : Option Window) (amount expires : Nat) : Window :=
  ⟨(row.map Window.expires).getD expires, (row.map Window.used).getD 0 + amount⟩

/-- A charge touches one row. -/
theorem rows_charge [LawfulEqOrd κ] [DecidableEq κ] (other : κ) :
    (windows.charge key amount expires).rows[other]?
      = if key = other then some (charged windows.rows[key]? amount expires)
        else windows.rows[other]? := by
  rw [charge, getElem?_insert_self_or]
  split
  · cases windows.rows[key]? <;> rfl
  · rfl

theorem size_charge :
    (windows.charge key amount expires).rows.size
      = windows.rows.size + if windows.rows[key]?.isNone then 1 else 0 := by
  rw [charge, ExtTreeMap.size_insert, ExtTreeMap.contains_eq_isSome_getElem?]
  cases windows.rows[key]? <;> simp

end Rows

variable {windows : Windows κ} {amount : Nat}

/-- What is allowed does not exceed the limit. -/
theorem Allows.used_le {key : κ} (h : windows.Allows key amount) :
    (windows.rows[key]?.map Window.used).getD 0 + amount ≤ windows.limit := by
  unfold Allows at h
  cases hrow : windows.rows[key]? with
  | none =>
    rw [hrow] at h
    simpa using h.2
  | some row =>
    rw [hrow] at h
    rcases h with ⟨total, htotal, hle⟩
    rw [checkedAddNat_eq_some htotal] at hle
    simpa using hle

/-- A new row is allowed only below the cap. -/
theorem Allows.size_lt {key : κ} (h : windows.Allows key amount)
    (hrow : windows.rows[key]? = none) :
    windows.rows.size < windows.cap := by
  unfold Allows at h
  rw [hrow] at h
  exact h.1

/-- The rows are within their cap and their limit. -/
structure Bounded (windows : Windows κ) : Prop where
  size_le : windows.rows.size ≤ windows.cap
  used_le : ∀ (key : κ) (row : Window), windows.rows[key]? = some row → row.used ≤ windows.limit

theorem bounded_new (cap limit : Nat) : (new cap limit : Windows κ).Bounded where
  size_le := by simp [new]
  used_le := by simp [new]

theorem Bounded.prune (h : windows.Bounded) (now : Nat) :
    (windows.prune now).Bounded where
  size_le := (windows.size_prune_le now).trans h.size_le
  used_le := by
    intro key row hrow
    rw [rows_prune] at hrow
    exact h.used_le key row (Option.filter_eq_some_iff.mp hrow).1

theorem Bounded.charge [LawfulEqOrd κ] [DecidableEq κ] (h : windows.Bounded) {key : κ}
    (hallows : windows.Allows key amount) (expires : Nat) :
    (windows.charge key amount expires).Bounded where
  size_le := by
    rw [size_charge, charge_cap]
    cases hrow : windows.rows[key]? with
    | none => simpa using hallows.size_lt hrow
    | some row => simpa using h.size_le
  used_le := by
    intro other row hrow
    rw [rows_charge] at hrow
    by_cases hkey : key = other
    · rw [if_pos hkey] at hrow
      cases hrow
      exact hallows.used_le
    · rw [if_neg hkey] at hrow
      exact h.used_le other row hrow

/-- Charging distinct keys touches each of their rows once. -/
theorem rows_chargeAll [LawfulEqOrd κ] [DecidableEq κ] (windows : Windows κ) {keys : List κ}
    (hkeys : keys.Nodup) (other : κ) (amount expires : Nat) :
    (windows.chargeAll keys amount expires).rows[other]?
      = if other ∈ keys then some (charged windows.rows[other]? amount expires)
        else windows.rows[other]? := by
  induction keys generalizing windows with
  | nil => simp [chargeAll]
  | cons key keys ih =>
    rcases List.nodup_cons.mp hkeys with ⟨hfresh, hkeys⟩
    have hstep := ih (windows.charge key amount expires) hkeys
    rw [rows_charge] at hstep
    rw [chargeAll, List.foldl_cons]
    refine hstep.trans ?_
    by_cases hother : key = other
    · have habsent : other ∉ keys := fun hmem => hfresh (hother ▸ hmem)
      rw [if_neg habsent, if_pos hother, if_pos (by simp [hother]), hother]
    · rw [if_neg hother]
      have hmem : other ∈ key :: keys ↔ other ∈ keys := by
        simp [Ne.symm hother]
      simp only [hmem]

/-- Charging distinct keys opens one row for each that is missing. -/
theorem size_chargeAll [LawfulEqOrd κ] [DecidableEq κ] (windows : Windows κ) {keys : List κ}
    (hkeys : keys.Nodup) (amount expires : Nat) :
    (windows.chargeAll keys amount expires).rows.size
      = windows.rows.size + (keys.filter fun key => windows.rows[key]?.isNone).length := by
  induction keys generalizing windows with
  | nil => simp [chargeAll]
  | cons key keys ih =>
    rcases List.nodup_cons.mp hkeys with ⟨hfresh, hkeys⟩
    have hstep := ih (windows.charge key amount expires) hkeys
    have hsame : keys.filter (fun other => (windows.charge key amount expires).rows[other]?.isNone)
        = keys.filter fun other => windows.rows[other]?.isNone := by
      apply List.filter_congr
      intro other hmem
      have hne : key ≠ other := by
        rintro rfl
        exact hfresh hmem
      rw [rows_charge, if_neg hne]
    rw [hsame, size_charge] at hstep
    rw [chargeAll, List.foldl_cons]
    refine hstep.trans ?_
    by_cases hrow : windows.rows[key]?.isNone = true
    · rw [List.filter_cons_of_pos (by simpa using hrow), if_pos hrow, List.length_cons]
      omega
    · rw [List.filter_cons_of_neg (by simpa using hrow), if_neg hrow, Nat.add_zero]

theorem Bounded.chargeAll [LawfulEqOrd κ] [DecidableEq κ] (h : windows.Bounded) {keys : List κ}
    (hkeys : keys.Nodup) (hallows : ∀ key ∈ keys, windows.Allows key amount)
    (hmissing :
      windows.rows.size + (keys.filter fun key => windows.rows[key]?.isNone).length ≤ windows.cap)
    (expires : Nat) : (windows.chargeAll keys amount expires).Bounded where
  size_le := by
    rw [windows.size_chargeAll hkeys, chargeAll_cap]
    exact hmissing
  used_le := by
    intro other row hrow
    rw [windows.rows_chargeAll hkeys] at hrow
    rw [chargeAll_limit]
    by_cases hmem : other ∈ keys
    · rw [if_pos hmem] at hrow
      cases hrow
      exact (hallows other hmem).used_le
    · rw [if_neg hmem] at hrow
      exact h.used_le other row hrow

end Windows

/-! ## Keys -/

abbrev Group := Bytes

abbrev DeviceKey := Group × DeviceId

instance : Ord DeviceKey := lexOrd

instance unitTransOrd : TransOrd Unit where
  eq_swap := rfl
  isLE_trans := fun _ _ => rfl

instance unitLawfulEqOrd : LawfulEqOrd Unit := ⟨fun _ => rfl⟩

/-- What a committed nonce is remembered under. -/
structure ReplayKey where
  group : Group
  localDevice : DeviceId
  role : Role
  original : DeviceId
  nonce : Nonce
  deriving DecidableEq, Repr

/-- The fields in the order in which keys are compared. -/
def ReplayKey.fields (key : ReplayKey) : Group × DeviceId × Nat × DeviceId × Nonce :=
  (key.group, key.localDevice, key.role.ctorIdx, key.original, key.nonce)

instance : Ord (Group × DeviceId × Nat × DeviceId × Nonce) :=
  @lexOrd _ _ _ (@lexOrd _ _ _ (@lexOrd _ _ _ lexOrd))

instance : Ord ReplayKey where
  compare left right := compare left.fields right.fields

theorem ReplayKey.fields_injective {left right : ReplayKey} (h : left.fields = right.fields) :
    left = right := by
  rcases left with ⟨group, localDevice, role, original, nonce⟩
  rcases right with ⟨group', localDevice', role', original', nonce'⟩
  simp only [fields, Prod.mk.injEq] at h
  rcases h with ⟨rfl, rfl, hrole, rfl, rfl⟩
  have hrole' : role = role' := by
    cases role <;> cases role' <;> simp_all [Role.ctorIdx]
  rw [hrole']

instance : TransOrd ReplayKey where
  eq_swap {left right} := OrientedOrd.eq_swap (a := left.fields) (b := right.fields)
  isLE_trans {a b c} := TransOrd.isLE_trans (a := a.fields) (b := b.fields) (c := c.fields)

instance : LawfulEqOrd ReplayKey where
  eq_of_compare h := ReplayKey.fields_injective (LawfulEqOrd.eq_of_compare h)

/-- A grant that was used, until it can no longer be fresh. -/
structure ReplayRow where
  hash : Hash32
  expires : Nat
  deriving DecidableEq, Repr

/-! ## The ledger -/

/-- What admission remembers. -/
structure State where
  time : TimeFloor
  ingressDevice : Windows DeviceKey
  ingressGroup : Windows Group
  ingressProcess : Windows Unit
  workDevice : Windows DeviceKey
  workGroup : Windows Group
  workProcess : Windows Unit
  replay : ExtTreeMap ReplayKey ReplayRow

namespace State

def new : State where
  time := ⟨none, false⟩
  ingressDevice := .new maxDevices 8
  ingressGroup := .new maxGroups 16
  ingressProcess := .new 1 32
  workDevice := .new maxDevices (64 * mib)
  workGroup := .new maxGroups (128 * mib)
  workProcess := .new 1 (256 * mib)
  replay := ∅

/-- Drop every expired row. -/
def prune (state : State) (now : Nat) : State where
  time := state.time
  ingressDevice := state.ingressDevice.prune now
  ingressGroup := state.ingressGroup.prune now
  ingressProcess := state.ingressProcess.prune now
  workDevice := state.workDevice.prune now
  workGroup := state.workGroup.prune now
  workProcess := state.workProcess.prune now
  replay := state.replay.filter fun _ row => now < row.expires

/-- Sample the clock and drop what has expired. -/
def observe (state : State) (clock : Reading) : Except AdmissionError Time × State :=
  match state.time.observe clock with
  | (.error error, time) => (.error error, { state with time := time })
  | (.ok now, time) => (.ok now, { state with time := time }.prune now.mono)

end State

/-! ## Tickets and grants -/

/-- A charged request before any signature was checked. -/
structure IngressTicket where
  /-- The identity of the runtime that issued the ticket. -/
  runtime : Nat
  group : Group
  epoch : UInt64
  localPeer : ServicePeer
  sender : ServicePeer
  role : Role
  deadline : Nat
  frameHash : Hash32

variable [Crypto] [Blake3]

/-- A verified original grant. It keeps the frame it was parsed from; only
{lit}`AdmissionRuntime::verify` makes one. -/
structure VerifiedGrant where
  ticket : IngressTicket
  originalFrame : Bytes
  grant : Grant
  workBytes : Nat
  parsed : Grant.parse originalFrame = .ok grant
  group_eq : grant.group = ticket.group

namespace VerifiedGrant

def original (proof : VerifiedGrant) : DeviceId := proof.grant.requester

def helper (proof : VerifiedGrant) : DeviceId := proof.grant.helper

def createdMs (proof : VerifiedGrant) : Nat := proof.grant.createdMs.toNat

def replayKey (proof : VerifiedGrant) : ReplayKey :=
  ⟨proof.ticket.group, proof.ticket.localPeer.device, proof.ticket.role, proof.original,
    proof.grant.nonce⟩

/-- A source charges the original requester and the helper, a helper only the requester. -/
def devices (proof : VerifiedGrant) : List DeviceId :=
  match proof.ticket.role with
  | .source => [proof.original, proof.helper]
  | .helper => [proof.original]

/-- The rows the devices of the grant are charged to. -/
def deviceKeys (proof : VerifiedGrant) : List DeviceKey :=
  proof.devices.map fun device => (proof.ticket.group, device)

omit [Blake3] in
/-- The charged devices are distinct. -/
theorem nodup_deviceKeys (proof : VerifiedGrant) : proof.deviceKeys.Nodup := by
  have hvalid := Grant.valid_of_parse proof.parsed
  have hdistinct : proof.original ≠ proof.helper := fun h => hvalid.2.2.2.1 h.symm
  unfold deviceKeys devices
  cases proof.ticket.role <;> simp [hdistinct]

end VerifiedGrant

namespace State

/-- Charge the bound sender before any signature is checked. -/
def admitIngress (self : Nat) (state : State) (clock : Reading) (scope : ServiceScope)
    (sender : ServicePeer) (role : Role) (frame : Bytes) :
    Except AdmissionError IngressTicket × State :=
  if scope.group = [] ∨ scope.group.length > 256 ∨ frame.length > fileServiceRequestMaxBytes
      ∨ frame = [] then (.error .bounds, state)
  else if scope.localPeer.device = sender.device ∨ scope.localPeer.peer = sender.peer then
    (.error .scope, state)
  else match state.observe clock with
    | (.error error, state) => (.error error, state)
    | (.ok now, state) =>
      match checkedAddNat now.mono windowMs, checkedAddNat now.mono effectMs with
      | some expires, some deadline =>
        let device : DeviceKey := (scope.group, sender.device)
        if ¬ state.ingressDevice.Allows device 1 ∨ ¬ state.ingressGroup.Allows scope.group 1
            ∨ ¬ state.ingressProcess.Allows () 1 then (.error .busy, state)
        else
          (.ok ⟨self, scope.group, scope.epoch, scope.localPeer, sender, role, deadline,
              Blake3.blake3 frame⟩,
            { state with
              ingressDevice := state.ingressDevice.charge device 1 expires
              ingressGroup := state.ingressGroup.charge scope.group 1 expires
              ingressProcess := state.ingressProcess.charge () 1 expires })
      | _, _ => (.error .clock, state)

/-- The original grant of a frame, with its delivery for a source. -/
def openFrame (ticket : IngressTicket) (frame : Bytes) :
    Except AdmissionError (Bytes × Option Delivery) :=
  match ticket.role with
  | .helper => .ok (frame, none)
  | .source =>
    match Delivery.parse frame with
    | .error _ => .error .signature
    | .ok delivery =>
      if delivery.source ≠ ticket.localPeer.device
          ∨ delivery.sourcePeer ≠ ticket.localPeer.peer then .error .scope
      else .ok (delivery.grant.frame.raw, some delivery)

/-- The peers that the grant names are those of the ticket. -/
def RoleMatches (ticket : IngressTicket) (grant : Grant) : Prop :=
  match ticket.role with
  | .helper => grant.requester = ticket.sender.device ∧ grant.requesterPeer = ticket.sender.peer
      ∧ grant.helper = ticket.localPeer.device ∧ grant.helperPeer = ticket.localPeer.peer
  | .source => grant.helper = ticket.sender.device ∧ grant.helperPeer = ticket.sender.peer

instance (ticket : IngressTicket) (grant : Grant) : Decidable (RoleMatches ticket grant) := by
  unfold RoleMatches
  split <;> infer_instance

/-- What running the grant is charged. -/
def workBytes (role : Role) (grant : Grant) : Nat :=
  match role with
  | .helper => 4 * fileServiceRequestMaxBytes + 5 * fileServiceResponseMaxBytes
  | .source => grant.window.maxCipherBytes.toNat + fileServiceResponseMaxBytes

/-- The checks of {lit}`verify` once the clock has been sampled. -/
def verifyAt (now : Time) (ticket : IngressTicket) (frame : Bytes) :
    Except AdmissionError VerifiedGrant := do
  if now.mono ≥ ticket.deadline then throw .expired
  let (raw, delivery) ← openFrame ticket frame
  match hparse : Grant.parse raw with
  | .error _ => throw .signature
  | .ok grant =>
    if hscope : grant.group = ticket.group ∧ grant.epoch = ticket.epoch then
      if ¬ RoleMatches ticket grant then throw .scope
      if absDiff now.wall grant.createdMs.toNat ≥ freshMs then throw .unfresh
      if (∃ found ∈ delivery, found.verifySignature = false)
          ∨ grant.verifySignature = false then throw .signature
      pure ⟨ticket, raw, grant, workBytes ticket.role grant, hparse, hscope.1⟩
    else throw .scope

/-- Verify the signatures of a charged request. -/
def verify (self : Nat) (state : State) (clock : Reading) (ticket : IngressTicket)
    (frame : Bytes) : Except AdmissionError VerifiedGrant × State :=
  if ticket.runtime ≠ self then (.error .scope, state)
  else if frame.length > fileServiceRequestMaxBytes then (.error .bounds, state)
  else if Blake3.blake3 frame ≠ ticket.frameHash then (.error .scope, state)
  else match state.observe clock with
    | (.error error, state) => (.error error, state)
    | (.ok now, state) => (verifyAt now ticket frame, state)

/-- The replay rows of one group. -/
def groupReplay (state : State) (group : Group) : ExtTreeMap ReplayKey ReplayRow :=
  state.replay.filter fun key _ => key.group = group

/-- Every policy check of a verified grant. -/
def check (self : Nat) (state : State) (proof : VerifiedGrant) (now : Time) :
    Except AdmissionError Unit := do
  if proof.ticket.runtime ≠ self then throw .scope
  if now.mono ≥ proof.ticket.deadline then throw .expired
  if absDiff now.wall proof.createdMs ≥ freshMs then throw .unfresh
  match state.replay[proof.replayKey]? with
  | some row => throw (if row.hash = proof.grant.hash then .replay else .nonceChanged)
  | none =>
    if state.replay.size ≥ maxReplayProcess
        ∨ (state.groupReplay proof.ticket.group).size ≥ maxReplayGroup then throw .busy
    if ∃ key ∈ proof.deviceKeys, ¬ state.workDevice.Allows key proof.workBytes then throw .busy
    let missing := (proof.deviceKeys.filter fun key => state.workDevice.rows[key]?.isNone).length
    if state.workDevice.rows.size + missing > maxDevices
        ∨ ¬ state.workGroup.Allows proof.ticket.group proof.workBytes
        ∨ ¬ state.workProcess.Allows () proof.workBytes then throw .busy
    if (checkedAddNat now.mono replayMs).isNone then throw .clock
    if (checkedAddNat now.mono windowMs).isNone then throw .clock
    pure ()

/-- Check before capacity is prepared. Nothing is reserved. -/
def preflight (self : Nat) (state : State) (clock : Reading) (proof : VerifiedGrant) :
    Except AdmissionError Unit × State :=
  match state.observe clock with
  | (.error error, state) => (.error error, state)
  | (.ok now, state) => (state.check self proof now, state)

/-- Publish the nonce and all work debits of a grant. -/
def publish (state : State) (proof : VerifiedGrant) (now : Time) : State :=
  let expires := now.mono + windowMs
  { state with
    workDevice := state.workDevice.chargeAll proof.deviceKeys proof.workBytes expires
    workGroup := state.workGroup.charge proof.ticket.group proof.workBytes expires
    workProcess := state.workProcess.charge () proof.workBytes expires
    replay := state.replay.insert proof.replayKey ⟨proof.grant.hash, now.mono + replayMs⟩ }

/-- Recheck every policy and publish, or change nothing. -/
def commit (self : Nat) (state : State) (clock : Reading) (proof : VerifiedGrant) :
    Except AdmissionError Unit × State :=
  match state.observe clock with
  | (.error error, state) => (.error error, state)
  | (.ok now, state) =>
    match state.check self proof now with
    | .error error => (.error error, state)
    | .ok () => (.ok (), state.publish proof now)

/-- Issue local grants on the effective wall timeline. -/
def requestTimeMs (state : State) (clock : Reading) : Except AdmissionError Nat × State :=
  match state.observe clock with
  | (.error error, state) => (.error error, state)
  | (.ok now, state) => (.ok now.wall, state)

/-! ## What a call does -/

/-- The clock was sampled at a time and expired rows were dropped. -/
structure Observed (state : State) (now : Time) (base : State) : Prop where
  previous : base.time.previous = some now
  pruned : ∃ time, base = { state with time := time }.prune now.mono
  /-- The effective wall clock advances at least as fast as the monotonic clock. -/
  floor : ∀ old, state.time.previous = some old →
    old.mono ≤ now.mono ∧ old.wall + (now.mono - old.mono) ≤ now.wall

omit [Crypto] [Blake3] in
theorem effective_floor {floor : TimeFloor} {clock : Reading} {wall : Nat}
    (h : floor.effective clock = some wall) {old : Time} (hold : floor.previous = some old) :
    old.mono ≤ clock.monotonicMs.toNat ∧
      old.wall + (clock.monotonicMs.toNat - old.mono) ≤ wall := by
  unfold TimeFloor.effective at h
  rw [hold] at h
  dsimp only at h
  by_cases hforward : old.mono ≤ clock.monotonicMs.toNat
  · rw [if_pos hforward, Option.map_eq_some_iff] at h
    rcases h with ⟨sum, hsum, rfl⟩
    rw [checkedAddNat_eq_some hsum]
    exact ⟨hforward, Nat.le_max_left _ _⟩
  · rw [if_neg hforward] at h
    cases h

omit [Crypto] [Blake3] in
/-- Sampling the clock observes a time, or fails and changes no row. -/
theorem observe_spec (state : State) (clock : Reading) :
    (∃ now base, state.observe clock = (.ok now, base) ∧ Observed state now base) ∨
      ∃ error time, state.observe clock = (.error error, { state with time := time }) ∧
        time.previous = state.time.previous := by
  unfold observe TimeFloor.observe
  by_cases hpoisoned : state.time.poisoned = true
  · rw [if_pos hpoisoned]
    exact .inr ⟨_, _, rfl, rfl⟩
  · rw [if_neg hpoisoned]
    cases heffective : state.time.effective clock with
    | none => exact .inr ⟨_, _, rfl, rfl⟩
    | some wall =>
      refine .inl ⟨_, _, rfl, rfl, ⟨_, rfl⟩, ?_⟩
      intro old hold
      exact effective_floor heffective hold

/-- What the policy checks establish. -/
structure Checked (identity : Nat) (state : State) (proof : VerifiedGrant) (now : Time) : Prop where
  runtime : proof.ticket.runtime = identity
  deadline : now.mono < proof.ticket.deadline
  fresh : absDiff now.wall proof.createdMs < freshMs
  unused : state.replay[proof.replayKey]? = none
  process_lt : state.replay.size < maxReplayProcess
  group_lt : (state.groupReplay proof.ticket.group).size < maxReplayGroup
  devices : ∀ key ∈ proof.deviceKeys, state.workDevice.Allows key proof.workBytes
  missing : state.workDevice.rows.size
    + (proof.deviceKeys.filter fun key => state.workDevice.rows[key]?.isNone).length ≤ maxDevices
  group : state.workGroup.Allows proof.ticket.group proof.workBytes
  process : state.workProcess.Allows () proof.workBytes

theorem check_spec {self : Nat} {state : State} {proof : VerifiedGrant} {now : Time}
    (h : state.check self proof now = .ok ()) : Checked self state proof now := by
  unfold check at h
  rcases guard_eq_ok.mp h with ⟨hruntime, h⟩
  rcases guard_eq_ok.mp h with ⟨hdeadline, h⟩
  rcases guard_eq_ok.mp h with ⟨hfresh, h⟩
  cases hrow : state.replay[proof.replayKey]? with
  | some row =>
    rw [hrow] at h
    cases h
  | none =>
    rw [hrow] at h
    rcases guard_eq_ok.mp h with ⟨hfull, h⟩
    rcases guard_eq_ok.mp h with ⟨hdevices, h⟩
    rcases guard_eq_ok.mp h with ⟨hrest, -⟩
    simp only [not_or, Nat.not_le, ge_iff_le, gt_iff_lt, Nat.not_lt, not_not] at hfull hrest
    simp only [not_exists, not_and, not_not] at hdevices
    exact ⟨not_not.mp hruntime, Nat.not_le.mp hdeadline, Nat.not_le.mp hfresh, hrow, hfull.1,
      hfull.2, hdevices, hrest.1, hrest.2.1, hrest.2.2⟩

end State

end Admission

end Mewtual
