import Mewtual.Lib.Machine
import Mewtual.Lib.Run
import Mewtual.Net.DenyMap

/-!
# Connection admission

The admission behaviour of the internet-exposed infra nodes. It holds each source prefix to a
quota of concurrent inbound connections, counted from the moment a connection is pending, and
keeps deny windows for peers and for prefixes. Time is pushed in by the owning event loop, so
every callback is one step on the behaviour's state.

An address is the list of its components; of these only the first IP address is read. A prefix
is a masked address, written as its big-endian number.

Main results:

- Theorem {lit}`Admission.Linked.charge`, {lit}`Admission.Linked.release`: the two connection
  indexes stay inverse to each other.
-/

namespace Mewtual
namespace Net

open Std

/-- A connection of the swarm. -/
abbrev ConnectionId := Nat

/-- A swarm peer, by the bytes of its multihash. -/
abbrev NetPeerId := List UInt8

inductive IpAddr where
  | v4 (addr : BitVec 32)
  | v6 (addr : BitVec 128)
deriving DecidableEq

/-- A component of an address. -/
inductive Protocol where
  | ip4 (addr : BitVec 32)
  | ip6 (addr : BitVec 128)
  | other (code : Nat)
deriving DecidableEq

abbrev Multiaddr := List Protocol

/-! ## Source prefixes -/

/-- The masked source address a connection came from. -/
inductive AddrPrefix where
  | v4 (net : BitVec 32)
  | v6 (net : BitVec 128)
deriving DecidableEq

namespace AddrPrefix

/-- The prefix as one number, for the order of a map's keys. -/
def code : AddrPrefix → Nat
  | v4 net => 2 * net.toNat
  | v6 net => 2 * net.toNat + 1

theorem code_injective : Function.Injective code := by
  intro left right h
  cases left <;> cases right <;> simp only [code] at h
  · exact congrArg v4 (BitVec.eq_of_toNat_eq (by omega))
  · omega
  · omega
  · exact congrArg v6 (BitVec.eq_of_toNat_eq (by omega))

instance : Ord AddrPrefix where
  compare left right := compare left.code right.code

instance : TransOrd AddrPrefix where
  eq_swap {left right} := OrientedOrd.eq_swap (a := left.code) (b := right.code)
  isLE_trans {a b c} := TransOrd.isLE_trans (a := a.code) (b := b.code) (c := c.code)

instance : LawfulEqOrd AddrPrefix where
  eq_of_compare h := code_injective (LawfulEqOrd.eq_of_compare h)

/-- The prefix lies in {lit}`100.64.0.0/10`, the carrier-grade NAT range. -/
def isShared : AddrPrefix → Bool
  | v4 net =>
    let first := (net >>> 24).toNat % 256
    let second := (net >>> 16).toNat % 256
    first = 100 && 64 ≤ second && second ≤ 127
  | v6 _ => false

end AddrPrefix

/-- Mask an address down to the configured prefix length. -/
def mask (ip : IpAddr) (v4Bits v6Bits : Nat) : AddrPrefix :=
  match ip with
  | .v4 addr =>
    let bits := min v4Bits 32
    .v4 (addr &&& if bits = 0 then 0 else BitVec.allOnes 32 <<< (32 - bits))
  | .v6 addr =>
    let bits := min v6Bits 128
    .v6 (addr &&& if bits = 0 then 0 else BitVec.allOnes 128 <<< (128 - bits))

/-- The masked prefix of the first IP component, if the address has one. -/
def addrPrefix (addr : Multiaddr) (v4Bits v6Bits : Nat) : Option AddrPrefix :=
  addr.findSome? fun
    | .ip4 ip => some (mask (.v4 ip) v4Bits v6Bits)
    | .ip6 ip => some (mask (.v6 ip) v4Bits v6Bits)
    | .other _ => none

/-! ## The behaviour -/

/-- The caps of a node. -/
structure AdmissionConfig where
  ipv4PrefixBits : Nat := 24
  ipv6PrefixBits : Nat := 56
  maxConnsPerPrefix : Nat := 128
  sharedPrefixMultiplier : Nat := 8
  maxConnsPerPrefixSaturated : Nat := 8
  refuseAllWhenSaturated : Bool := false
  maxDeniedPeers : Nat := 16384
  maxDeniedPrefixes : Nat := 4096
deriving DecidableEq

/-- Why a connection was refused. -/
inductive DeniedBecause where
  | prefixQuota (source : AddrPrefix) (held limit : Nat)
  | peerDenied (remainingMs : Nat)
  | prefixDenied (source : AddrPrefix) (remainingMs : Nat)
  | saturated
deriving DecidableEq

/-- The accounts of a node. -/
structure Admission where
  cfg : AdmissionConfig
  nowMs : Nat
  saturated : Bool
  /-- Inbound connections per source prefix, counted from the pending stage. -/
  connsPerPrefix : ExtTreeMap AddrPrefix (Finset ConnectionId)
  prefixOfConn : ExtTreeMap ConnectionId AddrPrefix
  prefixOfPeer : ExtTreeMap NetPeerId AddrPrefix
  deniedUntil : DenyMap NetPeerId
  deniedPrefixUntil : DenyMap AddrPrefix
  refused : Nat

namespace Admission

def new (cfg : AdmissionConfig) (nowMs : Nat) : Admission where
  cfg := cfg
  nowMs := nowMs
  saturated := false
  connsPerPrefix := ∅
  prefixOfConn := ∅
  prefixOfPeer := ∅
  deniedUntil := (∅ : ExtTreeMap NetPeerId Nat)
  deniedPrefixUntil := (∅ : ExtTreeMap AddrPrefix Nat)
  refused := 0

/-- Advance the clock and expire the deny windows that have elapsed. -/
def setNowMs (node : Admission) (nowMs : Nat) : Admission :=
  { node with
    nowMs := nowMs
    deniedUntil := node.deniedUntil.retain nowMs
    deniedPrefixUntil := node.deniedPrefixUntil.retain nowMs }

/-- Refuse a peer for a while. -/
def denyPeerFor (node : Admission) (peer : NetPeerId) (windowMs tie : Nat) : Admission :=
  { node with
    deniedUntil := node.deniedUntil.denyIn peer (saturatingAdd node.nowMs windowMs) node.nowMs
      node.cfg.maxDeniedPeers tie }

/-- Refuse a prefix for a while. -/
def denyPrefixFor (node : Admission) (source : AddrPrefix) (windowMs tie : Nat) : Admission :=
  { node with
    deniedPrefixUntil := node.deniedPrefixUntil.denyIn source (saturatingAdd node.nowMs windowMs)
      node.nowMs node.cfg.maxDeniedPrefixes tie }

/-- The prefix is refused now. -/
def isPrefixDenied (node : Admission) (source : AddrPrefix) : Bool :=
  (node.deniedPrefixUntil.running source node.nowMs).isSome

def setSaturated (node : Admission) (saturated : Bool) : Admission :=
  { node with saturated := saturated }

/-- The connections charged to a prefix. -/
def connsOf (node : Admission) (source : AddrPrefix) : Finset ConnectionId :=
  (node.connsPerPrefix[source]?).getD ∅

def connsInPrefix (node : Admission) (source : AddrPrefix) : Nat := (node.connsOf source).card

/-- The quota in force for a prefix. -/
def prefixQuota (node : Admission) (source : AddrPrefix) : Nat :=
  let base := if node.saturated then node.cfg.maxConnsPerPrefixSaturated
    else node.cfg.maxConnsPerPrefix
  if source.isShared then saturatingMul base (max node.cfg.sharedPrefixMultiplier 1) else base

/-- The prefix that an address is counted under. -/
def prefixFor (node : Admission) (addr : Multiaddr) : Option AddrPrefix :=
  addrPrefix addr node.cfg.ipv4PrefixBits node.cfg.ipv6PrefixBits

/-- Record a connection under its prefix in both indexes. -/
def charge (node : Admission) (conn : ConnectionId) (source : AddrPrefix) : Admission :=
  { node with
    connsPerPrefix := node.connsPerPrefix.insert source (insert conn (node.connsOf source))
    prefixOfConn := node.prefixOfConn.insert conn source }

/-- Release the quota slot a connection holds, whether it ever established or not. -/
def release (node : Admission) (conn : ConnectionId) : Admission :=
  match node.prefixOfConn[conn]? with
  | none => node
  | some source =>
    let node := { node with prefixOfConn := node.prefixOfConn.erase conn }
    match node.connsPerPrefix[source]? with
    | none => node
    | some set =>
      let set := set.erase conn
      if set = ∅ then { node with connsPerPrefix := node.connsPerPrefix.erase source }
      else { node with connsPerPrefix := node.connsPerPrefix.insert source set }

/-- Count a refusal. -/
def refuse (node : Admission) (why : DeniedBecause) : Except DeniedBecause Unit × Admission :=
  (.error why, { node with refused := saturatingAdd node.refused 1 })

/-- The deny window of a prefix, then its quota; an admitted connection is charged at once. -/
def handlePendingInboundConnection (node : Admission) (conn : ConnectionId)
    (remote : Multiaddr) : Except DeniedBecause Unit × Admission :=
  match node.prefixFor remote with
  | none => (.ok (), node)
  | some source =>
    match node.deniedPrefixUntil.running source node.nowMs with
    | some stamp => node.refuse (.prefixDenied source (stamp - node.nowMs))
    | none =>
      let held := node.connsInPrefix source
      let limit := node.prefixQuota source
      if limit ≤ held then node.refuse (.prefixQuota source held limit)
      else (.ok (), node.charge conn source)

/-- The peer is known once the handshake has completed. -/
def handleEstablishedInboundConnection (node : Admission) (peer : NetPeerId) :
    Except DeniedBecause Unit × Admission :=
  match node.deniedUntil.running peer node.nowMs with
  | some stamp => node.refuse (.peerDenied (stamp - node.nowMs))
  | none =>
    if node.saturated && node.cfg.refuseAllWhenSaturated then node.refuse .saturated
    else (.ok (), node)

/-- The side of a connection and its remote address. -/
inductive Endpoint where
  | listener (remote : Multiaddr)
  | dialer (remote : Multiaddr)
deriving DecidableEq

/-- {lit}`FromSwarm::ConnectionEstablished`: only inbound connections are charged. -/
def onConnectionEstablished (node : Admission) (conn : ConnectionId) (peer : NetPeerId) :
    Endpoint → Admission
  | .dialer _ => node
  | .listener remote =>
    match node.prefixFor remote with
    | none => node
    | some source =>
      let node := node.charge conn source
      { node with prefixOfPeer := node.prefixOfPeer.insert peer source }

/-- {lit}`FromSwarm::ConnectionClosed`. -/
def onConnectionClosed (node : Admission) (conn : ConnectionId) (peer : NetPeerId)
    (remainingEstablished : Nat) : Admission :=
  let node := node.release conn
  if remainingEstablished = 0 then { node with prefixOfPeer := node.prefixOfPeer.erase peer }
  else node

/-- {lit}`FromSwarm::ListenFailure`. -/
def onListenFailure (node : Admission) (conn : ConnectionId) : Admission := node.release conn

/-! ## The two connection indexes -/

/-- The connections of each prefix and the prefix of each connection are inverse to each other,
and no prefix is kept without a connection. -/
structure Linked (node : Admission) : Prop where
  mem_iff : ∀ (conn : ConnectionId) (source : AddrPrefix),
    conn ∈ node.connsOf source ↔ node.prefixOfConn[conn]? = some source
  nonempty : ∀ source : AddrPrefix, node.connsPerPrefix[source]? ≠ some ∅

theorem linked_new (cfg : AdmissionConfig) (nowMs : Nat) : (new cfg nowMs).Linked where
  mem_iff conn source := by simp [new, connsOf]
  nonempty source := by simp [new]

theorem connsOf_charge (node : Admission) (conn : ConnectionId) (source other : AddrPrefix) :
    (node.charge conn source).connsOf other
      = if source = other then insert conn (node.connsOf source) else node.connsOf other := by
  unfold connsOf charge
  rw [getElem?_insert_self_or]
  split <;> rfl

theorem prefixOfConn_charge (node : Admission) (conn other : ConnectionId)
    (source : AddrPrefix) :
    (node.charge conn source).prefixOfConn[other]?
      = if conn = other then some source else node.prefixOfConn[other]? := by
  unfold charge
  rw [getElem?_insert_self_or]

variable {node : Admission} {conn : ConnectionId} {source : AddrPrefix}

/-- A connection is charged while it holds no slot, or again to the prefix it already holds. -/
theorem Linked.charge (h : node.Linked)
    (hfree : ∀ held, node.prefixOfConn[conn]? = some held → held = source) :
    (node.charge conn source).Linked where
  mem_iff other target := by
    rw [connsOf_charge, prefixOfConn_charge]
    by_cases hconn : conn = other
    · subst hconn
      rw [if_pos rfl]
      by_cases htarget : source = target
      · simp [htarget]
      · rw [if_neg htarget, h.mem_iff]
        constructor
        · intro hheld
          exact absurd (hfree target hheld).symm htarget
        · intro hsame
          exact absurd (Option.some.inj hsame) htarget
    · rw [if_neg hconn]
      by_cases htarget : source = target
      · subst htarget
        rw [if_pos rfl, Finset.mem_insert, h.mem_iff]
        simp [Ne.symm hconn]
      · rw [if_neg htarget, h.mem_iff]
  nonempty target := by
    unfold Admission.charge
    rw [getElem?_insert_self_or]
    split
    · simp
    · exact h.nonempty target

theorem Linked.get_of_prefixOfConn (h : node.Linked)
    (hheld : node.prefixOfConn[conn]? = some source) :
    node.connsPerPrefix[source]? = some (node.connsOf source) := by
  have hmem := (h.mem_iff conn source).mpr hheld
  unfold connsOf at hmem ⊢
  cases hset : node.connsPerPrefix[source]? with
  | none => simp [hset] at hmem
  | some set => rfl

theorem release_of_absent (h : node.prefixOfConn[conn]? = none) : node.release conn = node := by
  unfold release
  rw [h]

/-- The set of a prefix loses the connection; an emptied set goes with its key. -/
theorem Linked.release_of_held (h : node.Linked) (hheld : node.prefixOfConn[conn]? = some source) :
    node.release conn =
      { node with
        prefixOfConn := node.prefixOfConn.erase conn
        connsPerPrefix :=
          if (node.connsOf source).erase conn = ∅ then node.connsPerPrefix.erase source
          else node.connsPerPrefix.insert source ((node.connsOf source).erase conn) } := by
  unfold release
  rw [hheld]
  dsimp only
  rw [h.get_of_prefixOfConn hheld]
  dsimp only
  split <;> rfl

theorem Linked.prefixOfConn_release (h : node.Linked) (conn other : ConnectionId) :
    (node.release conn).prefixOfConn[other]?
      = if conn = other then none else node.prefixOfConn[other]? := by
  cases hheld : node.prefixOfConn[conn]? with
  | none =>
    rw [release_of_absent hheld]
    by_cases hconn : conn = other
    · rw [if_pos hconn, ← hconn, hheld]
    · rw [if_neg hconn]
  | some source =>
    rw [h.release_of_held hheld]
    dsimp only
    rw [getElem?_erase_self_or]

theorem Linked.connsPerPrefix_release (h : node.Linked)
    (hheld : node.prefixOfConn[conn]? = some source) (other : AddrPrefix) :
    (node.release conn).connsPerPrefix[other]?
      = if source = other then
          if (node.connsOf source).erase conn = ∅ then none
          else some ((node.connsOf source).erase conn)
        else node.connsPerPrefix[other]? := by
  rw [h.release_of_held hheld]
  dsimp only
  split
  · rw [getElem?_erase_self_or]
  · rw [getElem?_insert_self_or]

theorem Linked.connsOf_release (h : node.Linked) (conn : ConnectionId) (other : AddrPrefix) :
    (node.release conn).connsOf other = (node.connsOf other).erase conn := by
  cases hheld : node.prefixOfConn[conn]? with
  | none =>
    have hfree : conn ∉ node.connsOf other := by
      rw [h.mem_iff, hheld]
      simp
    rw [release_of_absent hheld, Finset.erase_eq_of_notMem hfree]
  | some source =>
    by_cases hsource : source = other
    · subst hsource
      unfold connsOf
      rw [h.connsPerPrefix_release hheld, if_pos rfl]
      split
      · rename_i hempty
        exact hempty.symm
      · rfl
    · have hfree : conn ∉ node.connsOf other := by
        rw [h.mem_iff, hheld]
        simpa using hsource
      rw [Finset.erase_eq_of_notMem hfree]
      unfold connsOf
      rw [h.connsPerPrefix_release hheld, if_neg hsource]

theorem Linked.release (h : node.Linked) (conn : ConnectionId) :
    (node.release conn).Linked where
  mem_iff other target := by
    rw [h.connsOf_release, h.prefixOfConn_release, Finset.mem_erase, h.mem_iff]
    by_cases hconn : conn = other
    · simp [hconn]
    · simp [hconn, Ne.symm hconn]
  nonempty target := by
    cases hheld : node.prefixOfConn[conn]? with
    | none =>
      rw [release_of_absent hheld]
      exact h.nonempty target
    | some source =>
      rw [h.connsPerPrefix_release hheld]
      split
      · split
        · simp
        · rename_i hleft
          simpa using hleft
      · exact h.nonempty target

end Admission

end Net
end Mewtual
