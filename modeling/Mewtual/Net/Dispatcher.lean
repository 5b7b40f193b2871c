import Mewtual.Epoch.Primitives
import Mewtual.Lib.TreeMap

/-!
# Bounded application delivery

The networking actor hands events to the application through one ordered sink. Payloads wait in
a bounded queue, each with the lease of the connection it arrived on. Connects, disconnects and
path changes of a peer are not queued: its lifecycle keeps what was announced and what is actual,
and emits the difference. A lost gossip payload leaves one recovery obligation. The three sources
take turns.

A lease is an identity that is live until it is revoked. The driver revokes it in the same task
that runs the dispatcher, so liveness does not change within a call and is an argument here.

Main results:

- Theorem {lit}`Dispatcher.nextLifecycle_spec`: the four things a lifecycle can emit.
- Theorem {lit}`Dispatcher.nextEmission_spec`: what a turn emits and what it drops before.
-/

namespace Mewtual
namespace Net

open Std

def queuedPayloads : Nat := 64

def maxConnectedPeerSnapshot : Nat := 320

def maxLifecycle : Nat := 2 * maxConnectedPeerSnapshot

/-- One connection incarnation of a peer. -/
abbrev Lease := Nat

inductive ConnectionFamily where
  | ipv4 | ipv6 | dns | memory | unknown
deriving DecidableEq

inductive ConnectionTransport where
  | tcp | quicV1 | webSocket | circuitRelay | memory | unknown
deriving DecidableEq

inductive ConnectionDirection where
  | dialer | listener
deriving DecidableEq

structure ConnectionPath where
  family : ConnectionFamily
  transport : ConnectionTransport
  direction : ConnectionDirection
deriving DecidableEq

/-- What the application is handed from a connection. -/
inductive Payload where
  | gossip (body : Bytes)
  | request (body : Bytes)
deriving DecidableEq

def Payload.isGossip : Payload → Bool
  | .gossip _ => true
  | .request _ => false

/-- A queued payload; the serial is its place among all payloads offered. -/
structure Pending where
  event : Payload
  carrier : PeerId
  ingress : Lease
  serial : Nat
deriving DecidableEq

/-- An emitted event, with the lease or the queue entry it stands for. -/
inductive Emission where
  | connected (peer : PeerId) (lease : Lease)
  | paths (peer : PeerId) (active : List ConnectionPath) (newly : Option ConnectionPath)
  | disconnected (peer : PeerId)
  | payload (pending : Pending)
  | recovery
deriving DecidableEq

/-- The event the application receives. -/
inductive TransportEvent where
  | peerConnected (peer : PeerId)
  | peerPathsChanged (peer : PeerId) (active : List ConnectionPath)
      (newlyEstablished : Option ConnectionPath)
  | peerDisconnected (peer : PeerId)
  | delivered (payload : Payload)
  | recoveryNeeded
deriving DecidableEq

def Emission.event : Emission → TransportEvent
  | .connected peer _ => .peerConnected peer
  | .paths peer active newly => .peerPathsChanged peer active newly
  | .disconnected peer => .peerDisconnected peer
  | .payload pending => .delivered pending.event
  | .recovery => .recoveryNeeded

/-! ## Lifecycles -/

/-- The connection of a peer: its lease and its active paths. -/
structure Actual where
  lease : Lease
  active : List ConnectionPath
deriving DecidableEq

/-- What is to be told about a peer. -/
structure Lifecycle where
  actual : Option Actual := none
  announced : Option Lease := none
  paths : Option (List ConnectionPath) := none
  newly : Option ConnectionPath := none
  clearPaths : Bool := false
deriving DecidableEq

namespace Lifecycle

/-- What was announced is no longer what is actual. -/
def stale (state : Lifecycle) (live : Lease → Bool) : Bool :=
  match state.announced, state.actual with
  | some old, some new => !live old || old ≠ new.lease
  | some _, none => true
  | none, _ => false

/-- The lifecycle has something to emit. -/
def dirty (state : Lifecycle) (live : Lease → Bool) : Bool :=
  if state.clearPaths then true
  else
    match state.announced, state.actual with
    | some old, some new =>
      if live old && old = new.lease then state.paths ≠ some new.active || state.newly.isSome
      else true
    | some _, none => true
    | none, some new => live new.lease
    | none, none => false

/-- The lease was announced with its paths and is still the announced one. -/
def ready (state : Lifecycle) (live : Lease → Bool) (lease : Lease) : Bool :=
  live lease && !state.clearPaths && state.paths.isSome && state.announced = some lease

end Lifecycle

/-! ## The dispatcher -/

/-- The queues between the transport and its reader. -/
structure Dispatcher where
  lifecycle : ExtTreeMap PeerId Lifecycle := ∅
  cursor : Option PeerId := none
  payloads : List Pending := []
  lostGossip : Bool := false
  turn : Nat := 0

namespace Dispatcher

/-- A peer has connected. -/
def connected (dispatcher : Dispatcher) (peer : PeerId) (lease : Lease)
    (active : List ConnectionPath) (newly : Option ConnectionPath) : Bool × Dispatcher :=
  if (dispatcher.lifecycle[peer]?).isNone ∧ maxLifecycle ≤ dispatcher.lifecycle.size then
    (false, dispatcher)
  else
    let state := (dispatcher.lifecycle[peer]?).getD {}
    let kept := if state.actual.all (·.lease ≠ lease) then none else state.newly
    let state := { state with
      actual := some ⟨lease, active⟩
      newly := if newly.isSome then newly else kept }
    (true, { dispatcher with lifecycle := dispatcher.lifecycle.insert peer state })

/-- A peer has disconnected. -/
def disconnected (dispatcher : Dispatcher) (peer : PeerId) : Dispatcher :=
  match dispatcher.lifecycle[peer]? with
  | none => dispatcher
  | some state =>
    let state := { state with actual := none, newly := none }
    if state.announced.isNone ∧ !state.clearPaths then
      { dispatcher with lifecycle := dispatcher.lifecycle.erase peer }
    else { dispatcher with lifecycle := dispatcher.lifecycle.insert peer state }

/-- The carrier's actual connection is the one the payload arrived on. -/
def carries (dispatcher : Dispatcher) (carrier : PeerId) (ingress : Lease) : Bool :=
  (dispatcher.lifecycle[carrier]?).any fun state =>
    state.actual.any fun actual => actual.lease = ingress

/-- Queue a payload; gossip that is refused is marked as lost. -/
def queue (dispatcher : Dispatcher) (live : Lease → Bool) (pending : Pending) :
    Bool × Dispatcher :=
  if queuedPayloads ≤ dispatcher.payloads.length ∨ !live pending.ingress ∨
      !dispatcher.carries pending.carrier pending.ingress then
    (false, { dispatcher with lostGossip := dispatcher.lostGossip || pending.event.isGossip })
  else (true, { dispatcher with payloads := dispatcher.payloads ++ [pending] })

def noteGossipLoss (dispatcher : Dispatcher) : Dispatcher := { dispatcher with lostGossip := true }

/-- There is something to emit. -/
def hasPending (dispatcher : Dispatcher) (live : Lease → Bool) : Bool :=
  !dispatcher.payloads.isEmpty || dispatcher.lostGossip ||
    dispatcher.lifecycle.toList.any fun entry => entry.2.dirty live

/-- The payloads that are dropped from the front because their lease is gone. -/
def stalePayloads (dispatcher : Dispatcher) (live : Lease → Bool) : List Pending :=
  dispatcher.payloads.takeWhile fun pending => !live pending.ingress

/-- Never rebind old payloads to a replacement lease of the same peer. -/
def dropStale (dispatcher : Dispatcher) (live : Lease → Bool) : Dispatcher :=
  { dispatcher with
    payloads := dispatcher.payloads.dropWhile fun pending => !live pending.ingress
    lostGossip := dispatcher.lostGossip ||
      (dispatcher.stalePayloads live).any fun pending => pending.event.isGossip }

/-- The peers with something to emit, in key order. -/
def dirtyPeers (dispatcher : Dispatcher) (live : Lease → Bool) : List PeerId :=
  (dispatcher.lifecycle.toList.filter fun entry => entry.2.dirty live).map Prod.fst

/-- The first dirty peer after the cursor, or else the first of all. -/
def selectPeer (dispatcher : Dispatcher) (live : Lease → Bool) : Option PeerId :=
  let dirty := dispatcher.dirtyPeers live
  match dirty.find? fun peer => dispatcher.cursor.all (· < peer) with
  | some peer => some peer
  | none => dirty.head?

/-- Emit the next edge of one lifecycle. -/
def advance (state : Lifecycle) (live : Lease → Bool) (peer : PeerId) :
    Option (Emission × Option Lifecycle) :=
  if state.clearPaths then
    let cleared := { state with clearPaths := false }
    some (.paths peer [] none,
      if state.actual.isNone ∧ state.announced.isNone then none else some cleared)
  else if state.stale live then
    some (.disconnected peer,
      some { state with announced := none, paths := none, clearPaths := true })
  else
    -- A dirty lifecycle that is not stale has an actual connection.
    state.actual.map fun actual =>
      if state.announced.isNone then
        (.connected peer actual.lease, some { state with announced := some actual.lease })
      else
        (.paths peer actual.active state.newly,
          some { state with paths := some actual.active, newly := none })

/-- The next connection event. -/
def nextLifecycle (dispatcher : Dispatcher) (live : Lease → Bool) :
    Option (Emission × Dispatcher) := do
  let peer ← dispatcher.selectPeer live
  let state ← dispatcher.lifecycle[peer]?
  let (emission, next) ← advance state live peer
  return (emission, { dispatcher with
    cursor := some peer
    lifecycle := next.elim (dispatcher.lifecycle.erase peer) (dispatcher.lifecycle.insert peer) })

/-- The head of the queue may be delivered. -/
def headReady (dispatcher : Dispatcher) (live : Lease → Bool) : Bool :=
  dispatcher.payloads.head?.any fun pending =>
    (dispatcher.lifecycle[pending.carrier]?).any (·.ready live pending.ingress)

/-- What one of the three sources has to emit. -/
def source (dispatcher : Dispatcher) (live : Lease → Bool) :
    Nat → Option (Emission × Dispatcher)
  | 0 =>
    match dispatcher.payloads with
    | pending :: rest =>
      if dispatcher.headReady live then
        some (.payload pending, { dispatcher with payloads := rest })
      else none
    | [] => none
  | 1 => dispatcher.nextLifecycle live
  | 2 =>
    if dispatcher.lostGossip then some (.recovery, { dispatcher with lostGossip := false })
    else none
  | _ => none

/-- The first of the three sources from the turn on that has something to emit. -/
def nextEmission (dispatcher : Dispatcher) (live : Lease → Bool) :
    Option Emission × Dispatcher :=
  let dispatcher := dispatcher.dropStale live
  let found := [0, 1, 2].findSome? fun offset =>
    let index := (dispatcher.turn + offset) % 3
    (dispatcher.source live index).map fun (emission, next) =>
      (emission, { next with turn := (index + 1) % 3 })
  match found with
  | some (emission, next) => (some emission, next)
  | none => (none, dispatcher)

/-- Called with a sink permit; each call emits at most one event. -/
def next (dispatcher : Dispatcher) (live : Lease → Bool) : Option TransportEvent × Dispatcher :=
  ((dispatcher.nextEmission live).1.map Emission.event, (dispatcher.nextEmission live).2)

/-! ## What a lifecycle emits -/

/-- The four edges of a lifecycle. -/
inductive Advance (peer : PeerId) (state : Lifecycle) : Emission → Option Lifecycle → Prop
  | clear (hclear : state.clearPaths = true) :
      Advance peer state (.paths peer [] none)
        (if state.actual.isNone ∧ state.announced.isNone then none
          else some { state with clearPaths := false })
  | disconnect (hclear : state.clearPaths = false) (old : Lease)
      (hannounced : state.announced = some old) :
      Advance peer state (.disconnected peer)
        (some { state with announced := none, paths := none, clearPaths := true })
  | connect (hclear : state.clearPaths = false) (hannounced : state.announced = none)
      (actual : Actual) (hactual : state.actual = some actual) :
      Advance peer state (.connected peer actual.lease)
        (some { state with announced := some actual.lease })
  | paths (hclear : state.clearPaths = false) (actual : Actual)
      (hactual : state.actual = some actual) (hannounced : state.announced = some actual.lease) :
      Advance peer state (.paths peer actual.active state.newly)
        (some { state with paths := some actual.active, newly := none })

variable {live : Lease → Bool} {dispatcher : Dispatcher}

theorem advance_spec {state : Lifecycle} (hdirty : state.dirty live = true) (peer : PeerId) :
    ∃ emission next, advance state live peer = some (emission, next) ∧
      Advance peer state emission next := by
  unfold advance
  by_cases hclear : state.clearPaths = true
  · rw [if_pos hclear]
    exact ⟨_, _, rfl, .clear hclear⟩
  · rw [if_neg hclear]
    have hkept : state.clearPaths = false := by simpa using hclear
    unfold Lifecycle.dirty at hdirty
    rw [if_neg hclear] at hdirty
    by_cases hstale : state.stale live = true
    · rw [if_pos hstale]
      cases hannounced : state.announced with
      | none => simp [Lifecycle.stale, hannounced] at hstale
      | some old => exact ⟨_, _, rfl, .disconnect hkept old hannounced⟩
    · rw [if_neg hstale]
      cases hannounced : state.announced with
      | none =>
        cases hactual : state.actual with
        | none => simp [hannounced, hactual] at hdirty
        | some actual =>
          refine ⟨_, _, ?_, .connect hkept hannounced actual hactual⟩
          simp [hactual]
      | some old =>
        cases hactual : state.actual with
        | none => simp [Lifecycle.stale, hannounced, hactual] at hstale
        | some actual =>
          have hsame : old = actual.lease := by
            by_contra hother
            simp [Lifecycle.stale, hannounced, hactual, hother] at hstale
          refine ⟨_, _, ?_, .paths hkept actual hactual (hsame ▸ hannounced)⟩
          simp [hactual, hannounced]

theorem mem_dirtyPeers {peer : PeerId} :
    peer ∈ dispatcher.dirtyPeers live ↔
      ∃ state, dispatcher.lifecycle[peer]? = some state ∧ state.dirty live = true := by
  simp only [dirtyPeers, List.mem_map, List.mem_filter, Prod.exists, exists_and_right,
    exists_eq_right, ExtTreeMap.mem_toList_iff_getElem?_eq_some]

theorem selectPeer_mem {peer : PeerId} (h : dispatcher.selectPeer live = some peer) :
    peer ∈ dispatcher.dirtyPeers live := by
  unfold selectPeer at h
  dsimp only at h
  split at h
  · rename_i found hfound
    cases h
    exact List.mem_of_find?_eq_some hfound
  · exact List.mem_of_head? h

theorem selectPeer_eq_none (h : dispatcher.selectPeer live = none) :
    dispatcher.dirtyPeers live = [] := by
  unfold selectPeer at h
  dsimp only at h
  split at h
  · cases h
  · exact List.head?_eq_none_iff.mp h

/-- A lifecycle source is silent exactly when no lifecycle is dirty. -/
theorem nextLifecycle_spec (dispatcher : Dispatcher) (live : Lease → Bool) :
    (dispatcher.nextLifecycle live = none ∧ ∀ (peer : PeerId) (state : Lifecycle),
        dispatcher.lifecycle[peer]? = some state → state.dirty live = false) ∨
      ∃ peer state emission next, dispatcher.lifecycle[peer]? = some state ∧
        Advance peer state emission next ∧
        dispatcher.nextLifecycle live = some (emission, { dispatcher with
          cursor := some peer
          lifecycle := next.elim (dispatcher.lifecycle.erase peer)
            (dispatcher.lifecycle.insert peer) }) := by
  unfold nextLifecycle
  cases hselect : dispatcher.selectPeer live with
  | none =>
    refine .inl ⟨rfl, fun peer state hget => ?_⟩
    by_contra hdirty
    have hmem : peer ∈ dispatcher.dirtyPeers live :=
      mem_dirtyPeers.mpr ⟨state, hget, by simpa using hdirty⟩
    rw [selectPeer_eq_none hselect] at hmem
    cases hmem
  | some peer =>
    obtain ⟨state, hget, hdirty⟩ := mem_dirtyPeers.mp (selectPeer_mem hselect)
    obtain ⟨emission, next, hadvance, hspec⟩ := advance_spec hdirty peer
    refine .inr ⟨peer, state, emission, next, hget, hspec, ?_⟩
    simp [hget, hadvance]

/-! ## What a turn emits -/

theorem source_zero (dispatcher : Dispatcher) (live : Lease → Bool) :
    (dispatcher.source live 0 = none ∧
        (dispatcher.headReady live = false ∨ dispatcher.payloads = [])) ∨
      ∃ pending rest, dispatcher.payloads = pending :: rest ∧ dispatcher.headReady live = true ∧
        dispatcher.source live 0
          = some (.payload pending, { dispatcher with payloads := rest }) := by
  unfold source
  cases hpayloads : dispatcher.payloads with
  | nil => exact .inl ⟨rfl, .inr rfl⟩
  | cons pending rest =>
    dsimp only
    cases hready : dispatcher.headReady live with
    | false => exact .inl ⟨by simp, .inl rfl⟩
    | true => exact .inr ⟨pending, rest, rfl, rfl, by simp⟩

theorem source_two (dispatcher : Dispatcher) (live : Lease → Bool) :
    dispatcher.source live 2 = none ↔ dispatcher.lostGossip = false := by
  simp [source]

/-- A turn is silent when all three sources are. A turn that emits takes some source, and not one
before the turn while a recovery is due. -/
theorem nextEmission_spec (dispatcher : Dispatcher) (live : Lease → Bool)
    (hturn : dispatcher.turn < 3) :
    (dispatcher.nextEmission live = (none, dispatcher.dropStale live) ∧
        ∀ index < 3, (dispatcher.dropStale live).source live index = none) ∨
      ∃ index < 3, ∃ emission next,
        (dispatcher.dropStale live).source live index = some (emission, next) ∧
        dispatcher.nextEmission live
          = (some emission, { next with turn := (index + 1) % 3 }) ∧
        ((dispatcher.dropStale live).lostGossip = true → dispatcher.turn ≤ index) := by
  have hsame : (dispatcher.dropStale live).turn = dispatcher.turn := rfl
  unfold nextEmission
  dsimp only
  rw [hsame]
  generalize dispatcher.dropStale live = kept
  generalize dispatcher.turn = turn at hturn
  split
  · rename_i emission next hfound
    right
    obtain ⟨before, offset, after, hsplit, hsource, hbefore⟩ := List.findSome?_eq_some_iff.mp hfound
    obtain ⟨⟨found, reached⟩, hfrom, hresult⟩ := Option.map_eq_some_iff.mp hsource
    cases hresult
    refine ⟨(turn + offset) % 3, Nat.mod_lt _ (by omega), found, reached, hfrom, rfl, ?_⟩
    intro hlost
    by_contra hearly
    -- The rotation passed the recovery source, at offset 2 - turn, before this one.
    have hoffset : 2 - turn < offset := by omega
    have hpassed : 2 - turn ∈ before := by
      rcases before with _ | ⟨first, _ | ⟨second, _ | ⟨third, rest⟩⟩⟩
      · simp only [List.nil_append, List.cons.injEq] at hsplit
        omega
      · simp only [List.cons_append, List.nil_append, List.cons.injEq] at hsplit
        have hzero : 2 - turn = first := by omega
        simp [hzero]
      · simp only [List.cons_append, List.nil_append, List.cons.injEq] at hsplit
        have hone : 2 - turn = first ∨ 2 - turn = second := by omega
        simpa using hone
      · simp at hsplit
    have hnone := hbefore _ hpassed
    rw [Option.map_eq_none_iff, show (turn + (2 - turn)) % 3 = 2 by omega, source_two] at hnone
    rw [hnone] at hlost
    cases hlost
  · rename_i hfound
    left
    refine ⟨rfl, fun index hindex => ?_⟩
    have hoffset := List.findSome?_eq_none_iff.mp hfound ((index + 3 - turn) % 3) (by
      have hlt := Nat.mod_lt (index + 3 - turn) (show 0 < 3 by omega)
      interval_cases h : (index + 3 - turn) % 3 <;> simp)
    rw [Option.map_eq_none_iff, show (turn + (index + 3 - turn) % 3) % 3 = index by omega]
      at hoffset
    exact hoffset

end Dispatcher

end Net
end Mewtual
