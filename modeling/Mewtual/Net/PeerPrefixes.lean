import Mewtual.Net.AdmissionRuns

/-!
# Peers of a source prefix

The load shedder disconnects the peers that {lit}`peers_in_prefix` lists for a prefix over its
budget. The behaviour keeps one prefix per peer, the last one it connected from, until the peer has
no connection left. A run carries beside it the connections that are open and, for every peer, the
prefixes it has come from since it attached.

Main results:

- Theorem {lit}`Attached.peersInPrefix_exact_iff`: a peer is listed for its last source, and that is
  where it is connected from exactly if its open connections all come from there and one is open.
- Theorem {lit}`Attached.peersInPrefix_misses_first`: a peer that is connected from two networks is
  not listed for the first.
-/

namespace Mewtual
namespace Net

open Std

/-- Every attached peer whose last known source is the prefix. -/
def Admission.peersInPrefix (node : Admission) (source : AddrPrefix) : List NetPeerId :=
  (node.prefixOfPeer.toList.filter fun entry => entry.2 = source).map Prod.fst

/-- A peer is listed for the prefix that is kept for it. -/
theorem Admission.mem_peersInPrefix {node : Admission} {source : AddrPrefix} {peer : NetPeerId} :
    peer ∈ node.peersInPrefix source ↔ node.prefixOfPeer[peer]? = some source := by
  simp [peersInPrefix, ExtTreeMap.mem_toList_iff_getElem?_eq_some]

theorem Admission.nodup_peersInPrefix (node : Admission) (source : AddrPrefix) :
    (node.peersInPrefix source).Nodup := by
  have hdistinct := ExtTreeMap.distinct_keys_toList (t := node.prefixOfPeer)
  refine List.pairwise_map.mpr (hdistinct.filter _ |>.imp ?_)
  rintro left right hne hsame
  exact hne (LawfulEqCmp.compare_eq_iff_eq.mpr hsame)

/-- An established connection, with its prefix if it is inbound and its address has one. -/
structure Connection where
  conn : ConnectionId
  peer : NetPeerId
  source : Option AddrPrefix
deriving DecidableEq

/-- The behaviour with the open connections and the prefixes that each peer has come from since it
attached, the last one first. -/
structure Attached where
  watched : Watched
  opened : List Connection
  sources : NetPeerId → List AddrPrefix

namespace Attached

/-- A new behaviour: nobody is connected. -/
def start (cfg : AdmissionConfig) (nowMs : Nat) : Attached := ⟨.start cfg nowMs, [], fun _ => []⟩

/-- The prefix that an endpoint is charged to. -/
def sourceOf (node : Admission) : Admission.Endpoint → Option AddrPrefix
  | .listener remote => node.prefixFor remote
  | .dialer _ => none

/-- One report of the swarm, or a call of the node. -/
def step (state : Attached) (event : AdmissionEvent) : Attached :=
  match event with
  | .established conn peer endpoint =>
    let source := sourceOf state.watched.node endpoint
    ⟨state.watched.step event, ⟨conn, peer, source⟩ :: state.opened,
      Function.update state.sources peer (source.toList ++ state.sources peer)⟩
  | .closed conn peer _ =>
    let opened := state.opened.filter fun connection =>
      ¬(connection.conn = conn ∧ connection.peer = peer)
    ⟨state.watched.step event, opened,
      if opened.any fun connection => connection.peer = peer then state.sources
      else Function.update state.sources peer []⟩
  | _ => { state with watched := state.watched.step event }

/-- The swarm closes an open connection of the peer and counts those that remain. -/
def Allowed (state : Attached) (event : AdmissionEvent) : Prop :=
  state.watched.Allowed event ∧
    match event with
    | .closed conn peer remaining =>
      (∃ connection ∈ state.opened, connection.conn = conn ∧ connection.peer = peer) ∧
        remaining = state.opened.countP fun connection =>
          connection.conn ≠ conn ∧ connection.peer = peer
    | _ => True

/-- The behaviour knows the last source of every peer, and only of peers that are attached. -/
structure Known (state : Attached) : Prop where
  last : ∀ peer : NetPeerId, state.watched.node.prefixOfPeer[peer]? = (state.sources peer).head?
  attached : ∀ peer, state.sources peer ≠ [] → ∃ connection ∈ state.opened, connection.peer = peer
  came : ∀ connection ∈ state.opened, ∀ source ∈ connection.source,
    source ∈ state.sources connection.peer

theorem prefixOfPeer_release (node : Admission) (conn : ConnectionId) :
    (node.release conn).prefixOfPeer = node.prefixOfPeer := by
  unfold Admission.release
  split
  · rfl
  · dsimp only
    split
    · rfl
    · split <;> rfl

theorem prefixOfPeer_established (watched : Watched) (conn : ConnectionId) (peer : NetPeerId)
    (endpoint : Admission.Endpoint) :
    (watched.step (.established conn peer endpoint)).node.prefixOfPeer =
      (sourceOf watched.node endpoint).elim watched.node.prefixOfPeer
        (watched.node.prefixOfPeer.insert peer) := by
  cases endpoint with
  | dialer remote => rfl
  | listener remote =>
    simp only [Watched.step, Admission.onConnectionEstablished, sourceOf]
    cases watched.node.prefixFor remote <;> rfl

namespace Known

variable {state : Attached}

theorem start (cfg : AdmissionConfig) (nowMs : Nat) : Known (start cfg nowMs) where
  last peer := by simp [Attached.start, Watched.start, Admission.new]
  attached peer h := absurd rfl h
  came connection hmem := by cases hmem

/-- Reports on connections that are not established leave the peers alone. -/
theorem frame (h : state.Known) {watched : Watched}
    (hsame : watched.node.prefixOfPeer = state.watched.node.prefixOfPeer) :
    Known { state with watched := watched } := { h with
  last peer := by
    rw [hsame]
    exact h.last peer }

theorem established (h : state.Known) (conn : ConnectionId) (peer : NetPeerId)
    (endpoint : Admission.Endpoint) : Known (state.step (.established conn peer endpoint)) where
  last other := by
    have hlast := h.last other
    dsimp only [Attached.step]
    rw [prefixOfPeer_established]
    by_cases hpeer : peer = other
    · subst hpeer
      cases sourceOf state.watched.node endpoint <;> simp [hlast]
    · rw [Function.update_of_ne (Ne.symm hpeer), ← hlast]
      cases sourceOf state.watched.node endpoint with
      | none => rfl
      | some source => rw [Option.elim_some, getElem?_insert_self_or, if_neg hpeer]
  attached other hsources := by
    by_cases hpeer : other = peer
    · exact ⟨_, List.mem_cons_self, hpeer.symm⟩
    · simp only [Attached.step, Function.update_of_ne hpeer] at hsources
      obtain ⟨connection, hmem, hsame⟩ := h.attached other hsources
      exact ⟨connection, List.mem_cons_of_mem _ hmem, hsame⟩
  came connection hmem source hsource := by
    simp only [Attached.step] at hmem ⊢
    rcases List.mem_cons.mp hmem with rfl | hold
    · simp only [Function.update_self, List.mem_append, Option.mem_toList]
      exact .inl hsource
    · have hcame := h.came connection hold source hsource
      by_cases hpeer : connection.peer = peer
      · rw [hpeer] at hcame ⊢
        simp [hcame]
      · rw [Function.update_of_ne hpeer]
        exact hcame

/-- The sources of a peer are dropped with its last connection. -/
theorem closed (h : state.Known) {conn : ConnectionId} {peer : NetPeerId} {remaining : Nat}
    (hallowed : state.Allowed (.closed conn peer remaining)) :
    Known (state.step (.closed conn peer remaining)) := by
  obtain ⟨_, _, hremaining⟩ := hallowed
  have hmap : (state.watched.step (.closed conn peer remaining)).node.prefixOfPeer =
      if remaining = 0 then state.watched.node.prefixOfPeer.erase peer
      else state.watched.node.prefixOfPeer := by
    unfold Watched.step Admission.onConnectionClosed
    dsimp only
    split <;> simp only [prefixOfPeer_release]
  unfold Attached.step
  dsimp only
  generalize hopened : (state.opened.filter fun connection =>
    ¬(connection.conn = conn ∧ connection.peer = peer)) = opened
  have hcame : ∀ connection ∈ opened, ∀ source ∈ connection.source,
      source ∈ state.sources connection.peer := by
    rw [← hopened]
    exact fun connection hmem => h.came connection (List.mem_filter.mp hmem).1
  have hkept : ∀ other, other ≠ peer → state.sources other ≠ [] →
      ∃ connection ∈ opened, connection.peer = other := by
    rw [← hopened]
    intro other hother hsources
    obtain ⟨connection, hmem, rfl⟩ := h.attached other hsources
    exact ⟨connection, List.mem_filter.mpr ⟨hmem, by simp [hother]⟩, rfl⟩
  have hleft : (opened.any fun connection => connection.peer = peer) = true ↔ remaining ≠ 0 := by
    rw [← hopened, hremaining, Ne, List.countP_eq_zero]
    simp only [List.any_filter, List.any_eq_true, Bool.and_eq_true, decide_eq_true_eq]
    grind
  by_cases hlast : remaining = 0
  · rw [if_neg fun hany => hleft.mp hany hlast]
    rw [if_pos hlast] at hmap
    refine ⟨fun other => ?_, fun other hsources => ?_, fun connection hmem source hsource => ?_⟩
    · dsimp only
      rw [hmap, getElem?_erase_self_or]
      by_cases hother : peer = other
      · simp [hother]
      · rw [if_neg hother, Function.update_of_ne (Ne.symm hother)]
        exact h.last other
    · have hother : other ≠ peer := by
        rintro rfl
        simp at hsources
      dsimp only at hsources
      rw [Function.update_of_ne hother] at hsources
      exact hkept other hother hsources
    · have hother : connection.peer ≠ peer := fun hsame =>
        hleft.mp (List.any_eq_true.mpr ⟨connection, hmem, decide_eq_true hsame⟩) hlast
      dsimp only
      rw [Function.update_of_ne hother]
      exact hcame connection hmem source hsource
  · rw [if_pos (hleft.mpr hlast)]
    rw [if_neg hlast] at hmap
    refine ⟨fun other => ?_, fun other hsources => ?_, hcame⟩
    · dsimp only
      rw [hmap]
      exact h.last other
    · by_cases hother : other = peer
      · obtain ⟨connection, hmem, hsame⟩ := List.any_eq_true.mp (hleft.mpr hlast)
        exact ⟨connection, hmem, (of_decide_eq_true hsame).trans hother.symm⟩
      · exact hkept other hother hsources

theorem step (h : state.Known) {event : AdmissionEvent} (hallowed : state.Allowed event) :
    Known (state.step event) := by
  cases event with
  | established conn peer endpoint => exact h.established conn peer endpoint
  | closed conn peer remaining => exact h.closed hallowed
  | pending conn remote =>
    refine h.frame ?_
    unfold Watched.step
    dsimp only
    generalize houtcome : state.watched.node.handlePendingInboundConnection conn remote = outcome
    have hspec := Watched.pending_spec state.watched.node conn remote
    rw [houtcome] at hspec
    cases hspec <;> rfl
  | handshake conn peer =>
    refine h.frame ?_
    unfold Watched.step Admission.handleEstablishedInboundConnection
    dsimp only
    split
    · rfl
    · split <;> rfl
  | listenFailure conn => exact h.frame (prefixOfPeer_release state.watched.node conn)
  | setNow | setSaturated | denyPeer | denyPrefix => exact h.frame rfl

end Known

/-- A peer has a live inbound connection from the prefix. -/
def ConnectedFrom (state : Attached) (peer : NetPeerId) (source : AddrPrefix) : Prop :=
  ∃ connection ∈ state.opened, connection.peer = peer ∧ connection.source = some source

/-- The open connections of a peer that have a prefix all come from its last source, and one of them
is open. -/
def FromLast (state : Attached) (peer : NetPeerId) : Prop :=
  ∀ last, (state.sources peer).head? = some last →
    state.ConnectedFrom peer last ∧ ∀ source, state.ConnectedFrom peer source → source = last

/-- Along every run a peer is listed for its last source since it attached, once, and for no other
prefix; whoever is listed is attached. So a peer is listed for exactly the prefixes that it has live
inbound connections from if and only if these are its last source alone. -/
theorem peersInPrefix_exact_iff (cfg : AdmissionConfig) (nowMs : Nat)
    (events : List AdmissionEvent) (hobeys : Obeys step Allowed (start cfg nowMs) events) :
    let state := run step (start cfg nowMs) events
    let listed := state.watched.node.peersInPrefix
    (∀ source, (listed source).Nodup ∧
      ∀ peer, peer ∈ listed source ↔ (state.sources peer).head? = some source) ∧
    (∀ source, ∀ peer ∈ listed source, ∃ connection ∈ state.opened, connection.peer = peer) ∧
    ∀ peer, (∀ source, peer ∈ listed source ↔ state.ConnectedFrom peer source) ↔
      state.FromLast peer := by
  intro state listed
  have hknown : state.Known :=
    hobeys.run_induction Known (.start cfg nowMs) fun _ _ h hallowed => h.step hallowed
  have hlisted :
      ∀ source peer, peer ∈ listed source ↔ (state.sources peer).head? = some source := by
    intro source peer
    rw [Admission.mem_peersInPrefix, hknown.last]
  refine ⟨fun source => ⟨Admission.nodup_peersInPrefix _ _, hlisted source⟩,
    fun source peer hpeer => ?_, fun peer => ⟨fun hexact last hlast => ?_, fun hfrom source => ?_⟩⟩
  · have hmem := List.mem_of_head? ((hlisted source peer).mp hpeer)
    exact hknown.attached peer (List.ne_nil_of_mem hmem)
  · refine ⟨(hexact last).mp ((hlisted last peer).mpr hlast), fun source hsource => ?_⟩
    have hhead := (hlisted source peer).mp ((hexact source).mpr hsource)
    rw [hlast] at hhead
    exact (Option.some.inj hhead).symm
  · rw [hlisted]
    refine ⟨fun hlast => (hfrom source hlast).1, fun hsource => ?_⟩
    obtain ⟨connection, hmem, rfl, hfound⟩ := hsource
    have hcame := hknown.came connection hmem source hfound
    obtain ⟨last, rest, hsources⟩ := List.exists_cons_of_ne_nil (List.ne_nil_of_mem hcame)
    have hlast : (state.sources connection.peer).head? = some last := by rw [hsources, List.head?]
    rw [hlast, (hfrom last hlast).2 source ⟨connection, hmem, rfl, hfound⟩]

/-- Two connections of one peer, from one network or from two. The second is closed again. -/
def twoConnections (second : Multiaddr) : List AdmissionEvent :=
  [.pending 1 [.ip4 0x0a000001], .established 1 [9] (.listener [.ip4 0x0a000001]),
    .pending 2 second, .established 2 [9] (.listener second), .closed 2 [9] 1]

theorem obeys_twoConnections (second : Multiaddr) (hsecond : second = [.ip4 0x0a000002] ∨
    second = [.ip4 0x0b000001]) : Obeys step Allowed (start {} 5) (twoConnections second) := by
  refine ⟨⟨rfl, trivial⟩, ⟨?_, trivial⟩, ⟨?_, trivial⟩, ⟨?_, trivial⟩,
    ⟨.inl ⟨second, ?_⟩, ⟨⟨2, [9], _⟩, List.mem_cons_self, rfl, rfl⟩, ?_⟩, trivial⟩ <;>
  rcases hsecond with rfl | rfl <;>
  (try unfold Watched.Allowed) <;> decide +kernel

/-- Both connections come from one network. -/
theorem peersInPrefix_exact_iff_twoConnections :
    let state := run step (start {} 5) (twoConnections [.ip4 0x0a000002])
    Obeys step Allowed (start {} 5) (twoConnections [.ip4 0x0a000002]) ∧ state.FromLast [9] ∧
      ∀ source, [9] ∈ state.watched.node.peersInPrefix source ↔ state.ConnectedFrom [9] source := by
  intro state
  have hobeys := obeys_twoConnections [.ip4 0x0a000002] (.inl rfl)
  have hfrom : state.FromLast [9] := by
    have hopened : state.opened = [⟨1, [9], some (.v4 0x0a000000)⟩] := by decide +kernel
    have hlast : (state.sources [9]).head? = some (.v4 0x0a000000) := by decide +kernel
    intro last hsame
    rw [hlast] at hsame
    cases hsame
    unfold ConnectedFrom
    rw [hopened]
    refine ⟨⟨_, List.mem_cons_self, rfl, rfl⟩, ?_⟩
    rintro source ⟨connection, hmem, -, hsource⟩
    rw [List.mem_singleton.mp hmem] at hsource
    exact (Option.some.inj hsource).symm
  exact ⟨hobeys, hfrom, ((peersInPrefix_exact_iff {} 5 _ hobeys).2.2 [9]).mpr hfrom⟩

/-- With connections from two networks the peer is listed for the last of them only, also after that
connection has closed. -/
theorem peersInPrefix_misses_first :
    let state := run step (start {} 5) (twoConnections [.ip4 0x0b000001])
    Obeys step Allowed (start {} 5) (twoConnections [.ip4 0x0b000001]) ∧
      state.opened = [⟨1, [9], some (.v4 0x0a000000)⟩] ∧
      state.watched.node.peersInPrefix (.v4 0x0a000000) = [] ∧
      state.watched.node.peersInPrefix (.v4 0x0b000000) = [[9]] := by
  refine ⟨obeys_twoConnections _ (.inr rfl), ?_, ?_, ?_⟩ <;> decide +kernel

end Attached
end Net
end Mewtual
