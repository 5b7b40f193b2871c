import Mewtual.Net.ConnectionAdmission

/-!
# Runs of connection admission

The swarm reports each inbound connection as pending once, and then either as established and
later closed or as failed. A run interleaves the reports of any number of connections with clock
updates, saturation changes and deny calls. Beside the behaviour a run carries the stage each
connection has reached, against which the behaviour's accounts are compared.

The swarm establishes a connection with the remote address it announced when the connection was
pending.

Main results:

- Theorem {lit}`Watched.Accounts.step`: one report keeps the accounts.
- Theorem {lit}`Watched.accounts_exact_iff`: along every run the accounts are exact and both deny
  maps stay within their caps, precisely when no deny call meets a cap of zero.
-/

namespace Mewtual
namespace Net

open Std

/-- What the swarm has reported about a connection. -/
inductive Stage where
  | unseen
  | pending (remote : Multiaddr)
  | refused
  | live (remote : Multiaddr)
  | outbound
  | ended
deriving DecidableEq

/-- The remote address of an inbound connection that is pending or live. -/
def Stage.inbound : Stage → Option Multiaddr
  | .pending remote | .live remote => some remote
  | .unseen | .refused | .outbound | .ended => none

/-- What happens at a node. -/
inductive AdmissionEvent where
  | pending (conn : ConnectionId) (remote : Multiaddr)
  | handshake (conn : ConnectionId) (peer : NetPeerId)
  | established (conn : ConnectionId) (peer : NetPeerId) (endpoint : Admission.Endpoint)
  | closed (conn : ConnectionId) (peer : NetPeerId) (remainingEstablished : Nat)
  | listenFailure (conn : ConnectionId)
  | setNow (nowMs : Nat)
  | setSaturated (saturated : Bool)
  | denyPeer (peer : NetPeerId) (windowMs tie : Nat)
  | denyPrefix (source : AddrPrefix) (windowMs tie : Nat)
deriving DecidableEq

/-- The behaviour and the stage of every connection. -/
structure Watched where
  node : Admission
  stage : ConnectionId → Stage

namespace Watched

def start (cfg : AdmissionConfig) (nowMs : Nat) : Watched :=
  ⟨Admission.new cfg nowMs, fun _ => .unseen⟩

/-- The stage a pending connection reaches by the behaviour's answer. -/
def answered (remote : Multiaddr) : Except DeniedBecause Unit → Stage
  | .ok () => .pending remote
  | .error _ => .refused

def established : Admission.Endpoint → Stage
  | .listener remote => .live remote
  | .dialer _ => .outbound

def step (state : Watched) : AdmissionEvent → Watched
  | .pending conn remote =>
    let (answer, node) := state.node.handlePendingInboundConnection conn remote
    ⟨node, Function.update state.stage conn (answered remote answer)⟩
  | .handshake _ peer =>
    -- A refusal here is followed by a listen failure, which releases the slot.
    ⟨(state.node.handleEstablishedInboundConnection peer).2, state.stage⟩
  | .established conn peer endpoint =>
    ⟨state.node.onConnectionEstablished conn peer endpoint,
      Function.update state.stage conn (established endpoint)⟩
  | .closed conn peer remaining =>
    ⟨state.node.onConnectionClosed conn peer remaining,
      Function.update state.stage conn .ended⟩
  | .listenFailure conn =>
    ⟨state.node.onListenFailure conn, Function.update state.stage conn .ended⟩
  | .setNow nowMs => ⟨state.node.setNowMs nowMs, state.stage⟩
  | .setSaturated saturated => ⟨state.node.setSaturated saturated, state.stage⟩
  | .denyPeer peer windowMs tie => ⟨state.node.denyPeerFor peer windowMs tie, state.stage⟩
  | .denyPrefix source windowMs tie => ⟨state.node.denyPrefixFor source windowMs tie, state.stage⟩

/-- The reports the swarm makes about a connection at its stage. -/
def Allowed (state : Watched) : AdmissionEvent → Prop
  | .pending conn _ => state.stage conn = .unseen
  | .handshake conn _ => ∃ remote, state.stage conn = .pending remote
  | .established conn _ (.listener remote) => state.stage conn = .pending remote
  | .established conn _ (.dialer _) => state.stage conn = .unseen
  | .closed conn _ _ => (∃ remote, state.stage conn = .live remote) ∨ state.stage conn = .outbound
  | .listenFailure conn =>
    state.stage conn = .unseen ∨ state.stage conn = .refused ∨
      ∃ remote, state.stage conn = .pending remote
  | .setNow _ | .setSaturated _ | .denyPeer _ _ _ | .denyPrefix _ _ _ => True

/-! ## The accounts -/

/-- The connection indexes follow the stages. -/
structure Accounts (cfg : AdmissionConfig) (state : Watched) : Prop where
  config : state.node.cfg = cfg
  linked : state.node.Linked
  held : ∀ conn : ConnectionId,
    state.node.prefixOfConn[conn]? = (state.stage conn).inbound.bind state.node.prefixFor

theorem accounts_start (cfg : AdmissionConfig) (nowMs : Nat) :
    (start cfg nowMs).Accounts cfg where
  config := rfl
  linked := Admission.linked_new cfg nowMs
  held conn := by simp [start, Admission.new, Stage.inbound]

variable {cfg : AdmissionConfig} {state : Watched}

/-- A step that leaves the indexes and the stages alone keeps the accounts. -/
theorem Accounts.frame (h : state.Accounts cfg) {node : Admission}
    (hcfg : node.cfg = state.node.cfg) (hconns : node.connsPerPrefix = state.node.connsPerPrefix)
    (hindex : node.prefixOfConn = state.node.prefixOfConn) :
    Accounts cfg ⟨node, state.stage⟩ where
  config := hcfg.trans h.config
  linked := by
    refine ⟨fun conn source => ?_, fun source => ?_⟩
    · unfold Admission.connsOf
      rw [hconns, hindex]
      exact h.linked.mem_iff conn source
    · rw [hconns]
      exact h.linked.nonempty source
  held conn := by
    have hheld := h.held conn
    unfold Admission.prefixFor at hheld ⊢
    rw [hindex, hcfg]
    exact hheld

variable {conn : ConnectionId}

/-- A connection moves to a stage that holds no slot, and holds none. -/
theorem Accounts.unslotted (h : state.Accounts cfg) {s : Stage}
    (hstage : s.inbound.bind state.node.prefixFor =
      (state.stage conn).inbound.bind state.node.prefixFor) :
    Accounts cfg ⟨state.node, Function.update state.stage conn s⟩ := { h with
  held other := by
    rw [h.held other]
    dsimp only
    by_cases hconn : other = conn
    · rw [hconn, Function.update_self, hstage]
    · rw [Function.update_of_ne hconn] }

theorem Accounts.charge (h : state.Accounts cfg) {source : AddrPrefix} {s : Stage}
    (hfree : ∀ held, state.node.prefixOfConn[conn]? = some held → held = source)
    (hstage : s.inbound.bind state.node.prefixFor = some source) :
    Accounts cfg ⟨state.node.charge conn source, Function.update state.stage conn s⟩ where
  config := h.config
  linked := h.linked.charge hfree
  held other := by
    rw [Admission.prefixOfConn_charge]
    dsimp only
    by_cases hconn : conn = other
    · subst hconn
      rw [if_pos rfl, Function.update_self]
      exact hstage.symm
    · rw [if_neg hconn, Function.update_of_ne (Ne.symm hconn)]
      exact h.held other

/-- A release changes the connection indexes only. -/
theorem release_frame (node : Admission) (conn : ConnectionId) :
    (node.release conn).cfg = node.cfg ∧ (node.release conn).deniedUntil = node.deniedUntil ∧
      (node.release conn).deniedPrefixUntil = node.deniedPrefixUntil := by
  unfold Admission.release
  split
  · exact ⟨rfl, rfl, rfl⟩
  · dsimp only
    split
    · exact ⟨rfl, rfl, rfl⟩
    · split <;> exact ⟨rfl, rfl, rfl⟩

theorem Accounts.release (h : state.Accounts cfg) (conn : ConnectionId) :
    Accounts cfg ⟨state.node.release conn, Function.update state.stage conn .ended⟩ where
  config := (release_frame _ _).1.trans h.config
  linked := h.linked.release conn
  held other := by
    rw [h.linked.prefixOfConn_release]
    dsimp only
    by_cases hconn : conn = other
    · subst hconn
      rw [if_pos rfl, Function.update_self]
      rfl
    · rw [if_neg hconn, Function.update_of_ne (Ne.symm hconn), h.held other]
      unfold Admission.prefixFor
      rw [(release_frame _ _).1]

/-- What the behaviour answers to a pending connection. -/
inductive Pending (node : Admission) (conn : ConnectionId) (remote : Multiaddr) :
    Except DeniedBecause Unit × Admission → Prop
  | unmetered (hsource : node.prefixFor remote = none) : Pending node conn remote (.ok (), node)
  | denied (source : AddrPrefix) (stamp : Nat) (hsource : node.prefixFor remote = some source)
      (hrunning : node.deniedPrefixUntil.running source node.nowMs = some stamp) :
      Pending node conn remote (node.refuse (.prefixDenied source (stamp - node.nowMs)))
  | full (source : AddrPrefix) (hsource : node.prefixFor remote = some source)
      (hfull : node.prefixQuota source ≤ node.connsInPrefix source) :
      Pending node conn remote (node.refuse
        (.prefixQuota source (node.connsInPrefix source) (node.prefixQuota source)))
  | admitted (source : AddrPrefix) (hsource : node.prefixFor remote = some source)
      (hrunning : node.deniedPrefixUntil.running source node.nowMs = none)
      (hroom : node.connsInPrefix source < node.prefixQuota source) :
      Pending node conn remote (.ok (), node.charge conn source)

theorem pending_spec (node : Admission) (conn : ConnectionId) (remote : Multiaddr) :
    Pending node conn remote (node.handlePendingInboundConnection conn remote) := by
  unfold Admission.handlePendingInboundConnection
  cases hsource : node.prefixFor remote with
  | none => exact .unmetered hsource
  | some source =>
    dsimp only
    cases hrunning : node.deniedPrefixUntil.running source node.nowMs with
    | some stamp => exact .denied source stamp hsource hrunning
    | none =>
      dsimp only
      by_cases hfull : node.prefixQuota source ≤ node.connsInPrefix source
      · rw [if_pos hfull]
        exact .full source hsource hfull
      · rw [if_neg hfull]
        exact .admitted source hsource hrunning (by omega)

theorem Accounts.pending (h : state.Accounts cfg) (hunseen : state.stage conn = .unseen)
    (remote : Multiaddr) : (state.step (.pending conn remote)).Accounts cfg := by
  have hfree : (state.stage conn).inbound.bind state.node.prefixFor = none := by
    rw [hunseen]
    rfl
  unfold step
  dsimp only
  have hspec := pending_spec state.node conn remote
  generalize state.node.handlePendingInboundConnection conn remote = outcome at hspec
  cases hspec with
  | unmetered hsource => exact h.unslotted (hsource.trans hfree.symm)
  | denied source stamp hsource hrunning | full source hsource hfull =>
    exact (h.unslotted (s := .refused) hfree.symm).frame rfl rfl rfl
  | admitted source hsource hrunning hroom =>
    refine h.charge (s := .pending remote) ?_ hsource
    intro held hheld
    rw [h.held, hfree] at hheld
    cases hheld

theorem Accounts.established (h : state.Accounts cfg) {peer : NetPeerId}
    {endpoint : Admission.Endpoint} (hallowed : state.Allowed (.established conn peer endpoint)) :
    (state.step (.established conn peer endpoint)).Accounts cfg := by
  unfold step
  dsimp only
  unfold Admission.onConnectionEstablished
  cases endpoint with
  | dialer remote =>
    have hunseen : state.stage conn = .unseen := hallowed
    refine h.unslotted (s := .outbound) ?_
    rw [hunseen]
    rfl
  | listener remote =>
    have hpending : state.stage conn = .pending remote := hallowed
    have hheld : state.node.prefixOfConn[conn]? = state.node.prefixFor remote := by
      rw [h.held, hpending]
      rfl
    dsimp only
    cases hsource : state.node.prefixFor remote with
    | none =>
      refine h.unslotted (s := .live remote) ?_
      rw [hpending]
      rfl
    | some source =>
      rw [hsource] at hheld
      refine (h.charge (s := .live remote) ?_ hsource).frame rfl rfl rfl
      intro held hsame
      rw [hheld] at hsame
      exact (Option.some.inj hsame).symm

/-- One report keeps the accounts. -/
theorem Accounts.step (state : Watched) (event : AdmissionEvent) (h : state.Accounts cfg)
    (hallowed : state.Allowed event) :
    (state.step event).Accounts cfg := by
  cases event with
  | pending conn remote => exact h.pending hallowed remote
  | handshake conn peer =>
    unfold Watched.step Admission.handleEstablishedInboundConnection
    dsimp only
    split
    · exact h.frame rfl rfl rfl
    · split
      · exact h.frame rfl rfl rfl
      · exact h
  | established conn peer endpoint => exact h.established hallowed
  | closed conn peer remaining =>
    unfold Watched.step Admission.onConnectionClosed
    dsimp only
    split
    · exact (h.release conn).frame rfl rfl rfl
    · exact h.release conn
  | listenFailure conn => exact h.release conn
  | setNow | setSaturated | denyPeer | denyPrefix => exact h.frame rfl rfl rfl

theorem run_accounts {nowMs : Nat} {events : List AdmissionEvent}
    (hobeys : Obeys step Allowed (start cfg nowMs) events) :
    (run step (start cfg nowMs) events).Accounts cfg :=
  hobeys.run_induction (Accounts cfg) (accounts_start cfg nowMs) Accounts.step

/-! ## What a state shows -/

/-- The inbound connections of a prefix that are pending or live. -/
def inboundOf (state : Watched) (source : AddrPrefix) : Set ConnectionId :=
  {conn | ∃ remote, (state.stage conn = .pending remote ∨ state.stage conn = .live remote) ∧
    state.node.prefixFor remote = some source}

/-- The accounts of a state, and its deny maps within their caps. -/
structure Exact (state : Watched) : Prop where
  inverse : ∀ (conn : ConnectionId) (source : AddrPrefix),
    state.node.prefixOfConn[conn]? = some source
      ↔ ∃ set, state.node.connsPerPrefix[source]? = some set ∧ conn ∈ set
  nonempty : ∀ (source : AddrPrefix) (set : Finset ConnectionId),
    state.node.connsPerPrefix[source]? = some set → set.Nonempty
  count : ∀ source : AddrPrefix,
    (state.node.connsInPrefix source : ℕ∞) = (state.inboundOf source).encard
  drained : (∀ (conn : ConnectionId) (remote : Multiaddr),
      state.stage conn ≠ .pending remote ∧ state.stage conn ≠ .live remote) →
    state.node.connsPerPrefix = ∅ ∧ state.node.prefixOfConn = ∅
  peers : state.node.deniedUntil.size ≤ state.node.cfg.maxDeniedPeers
  prefixes : state.node.deniedPrefixUntil.size ≤ state.node.cfg.maxDeniedPrefixes

theorem inbound_eq_some {stage : Stage} {remote : Multiaddr} :
    stage.inbound = some remote ↔ stage = .pending remote ∨ stage = .live remote := by
  cases stage <;> simp [Stage.inbound]

section

variable (h : state.Accounts cfg)

include h

theorem Accounts.held_iff (conn : ConnectionId) (source : AddrPrefix) :
    state.node.prefixOfConn[conn]? = some source ↔ conn ∈ state.inboundOf source := by
  rw [h.held, Option.bind_eq_some_iff]
  simp only [inbound_eq_some, inboundOf, Set.mem_ofPred_eq]

theorem Accounts.inboundOf_eq (source : AddrPrefix) :
    state.inboundOf source = ↑(state.node.connsOf source) := by
  ext conn
  rw [← h.held_iff, Finset.mem_coe, h.linked.mem_iff]

theorem Accounts.connsPerPrefix_eq_empty
    (hindex : state.node.prefixOfConn = ∅) :
    state.node.connsPerPrefix = ∅ := by
  apply ExtTreeMap.ext_getElem?
  intro source
  rw [ExtTreeMap.getElem?_empty]
  cases hset : state.node.connsPerPrefix[source]? with
  | none => rfl
  | some set =>
    -- A kept set has a connection, which the empty reverse index would have to hold.
    exfalso
    obtain ⟨conn, hconn⟩ := Finset.nonempty_iff_ne_empty.mpr fun hempty =>
      h.linked.nonempty source (hempty ▸ hset)
    have hmem : conn ∈ state.node.connsOf source := by
      unfold Admission.connsOf
      rw [hset]
      exact hconn
    rw [h.linked.mem_iff, hindex] at hmem
    simp at hmem

theorem Accounts.drained
    (hended : ∀ (conn : ConnectionId) (remote : Multiaddr),
      state.stage conn ≠ .pending remote ∧ state.stage conn ≠ .live remote) :
    state.node.connsPerPrefix = ∅ ∧ state.node.prefixOfConn = ∅ := by
  have hindex : state.node.prefixOfConn = ∅ := by
    apply ExtTreeMap.ext_getElem?
    intro conn
    have hnone : (state.stage conn).inbound = none := by
      rw [Option.eq_none_iff_forall_ne_some]
      intro remote hremote
      rcases inbound_eq_some.mp hremote with hpending | hlive
      · exact (hended conn remote).1 hpending
      · exact (hended conn remote).2 hlive
    rw [h.held, hnone, ExtTreeMap.getElem?_empty]
    rfl
  exact ⟨h.connsPerPrefix_eq_empty hindex, hindex⟩

theorem Accounts.exact
    (hpeers : state.node.deniedUntil.size ≤ cfg.maxDeniedPeers)
    (hprefixes : state.node.deniedPrefixUntil.size ≤ cfg.maxDeniedPrefixes) : state.Exact where
  inverse conn source := by
    rw [← h.linked.mem_iff]
    unfold Admission.connsOf
    cases hset : state.node.connsPerPrefix[source]? with
    | none | some => simp
  nonempty source set hset := by
    refine Finset.nonempty_iff_ne_empty.mpr fun hempty => ?_
    exact h.linked.nonempty source (hempty ▸ hset)
  count source := by
    rw [h.inboundOf_eq, Set.encard_coe_eq_coe_finsetCard]
    rfl
  drained := h.drained
  peers := h.config ▸ hpeers
  prefixes := h.config ▸ hprefixes

end

/-! ## What a step does -/

/-- A connection is admitted only below the quota in force and outside a deny window of its
prefix, and neither deny map loses a window before its time. -/
structure ExactStep (state : Watched) (event : AdmissionEvent) : Prop where
  admitted : ∀ (conn : ConnectionId) (remote : Multiaddr) (source : AddrPrefix),
    event = .pending conn remote → state.node.prefixFor remote = some source →
    (state.node.handlePendingInboundConnection conn remote).1 = .ok () →
    state.node.connsInPrefix source < state.node.prefixQuota source ∧
      state.node.isPrefixDenied source = false
  peers : state.node.deniedUntil.Kept (state.step event).node.deniedUntil
    (state.step event).node.nowMs state.node.cfg.maxDeniedPeers
  prefixes : state.node.deniedPrefixUntil.Kept (state.step event).node.deniedPrefixUntil
    (state.step event).node.nowMs state.node.cfg.maxDeniedPrefixes

theorem admitted_of_ok {node : Admission} {remote : Multiaddr} {source : AddrPrefix}
    (hsource : node.prefixFor remote = some source)
    (hok : (node.handlePendingInboundConnection conn remote).1 = .ok ()) :
    node.connsInPrefix source < node.prefixQuota source ∧ node.isPrefixDenied source = false := by
  have hspec := pending_spec node conn remote
  generalize node.handlePendingInboundConnection conn remote = outcome at hspec hok
  cases hspec with
  | unmetered hnone => rw [hsource] at hnone; cases hnone
  | denied | full => cases hok
  | admitted found hfound hrunning hroom =>
    rw [hsource] at hfound
    cases hfound
    exact ⟨hroom, by rw [Admission.isPrefixDenied, hrunning]; rfl⟩

/-- The deny maps before and after a report: unchanged, expired, or one key denied. -/
inductive DenyMove (node : Admission) : AdmissionEvent → Admission → Prop
  | untouched (event : AdmissionEvent) (next : Admission)
      (hpeers : next.deniedUntil = node.deniedUntil)
      (hprefixes : next.deniedPrefixUntil = node.deniedPrefixUntil) : DenyMove node event next
  | expired (nowMs : Nat) : DenyMove node (.setNow nowMs) (node.setNowMs nowMs)
  | peer (peer : NetPeerId) (windowMs tie : Nat) :
      DenyMove node (.denyPeer peer windowMs tie) (node.denyPeerFor peer windowMs tie)
  | source (source : AddrPrefix) (windowMs tie : Nat) :
      DenyMove node (.denyPrefix source windowMs tie) (node.denyPrefixFor source windowMs tie)

theorem denyMove_step (state : Watched) (event : AdmissionEvent) :
    DenyMove state.node event (state.step event).node := by
  cases event with
  | pending conn remote =>
    unfold step
    dsimp only
    have hspec := pending_spec state.node conn remote
    generalize state.node.handlePendingInboundConnection conn remote = outcome at hspec
    cases hspec <;> exact .untouched _ _ rfl rfl
  | handshake conn peer =>
    unfold step Admission.handleEstablishedInboundConnection
    dsimp only
    split
    · exact .untouched _ _ rfl rfl
    · split <;> exact .untouched _ _ rfl rfl
  | established conn peer endpoint =>
    unfold step Admission.onConnectionEstablished
    cases endpoint with
    | dialer remote => exact .untouched _ _ rfl rfl
    | listener remote =>
      dsimp only
      split <;> exact .untouched _ _ rfl rfl
  | closed conn peer remaining =>
    obtain ⟨-, hpeers, hprefixes⟩ := release_frame state.node conn
    unfold step Admission.onConnectionClosed
    dsimp only
    split <;> exact .untouched _ _ hpeers hprefixes
  | listenFailure conn =>
    obtain ⟨-, hpeers, hprefixes⟩ := release_frame state.node conn
    exact .untouched _ _ hpeers hprefixes
  | setNow nowMs => exact .expired nowMs
  | setSaturated saturated => exact .untouched _ _ rfl rfl
  | denyPeer peer windowMs tie => exact .peer peer windowMs tie
  | denyPrefix source windowMs tie => exact .source source windowMs tie

theorem exactStep (state : Watched) (event : AdmissionEvent) : state.ExactStep event where
  admitted conn remote source _ := admitted_of_ok
  peers := by
    have hmove := denyMove_step state event
    generalize (state.step event).node = next at hmove
    cases hmove with
    | untouched _ _ hpeers _ => rw [hpeers]; exact DenyMap.kept_refl _ _ _
    | expired nowMs => exact DenyMap.kept_retain _ _ _
    | peer peer windowMs tie => exact DenyMap.kept_denyIn _ _ _ _ _ _
    | source source windowMs tie => exact DenyMap.kept_refl _ _ _
  prefixes := by
    have hmove := denyMove_step state event
    generalize (state.step event).node = next at hmove
    cases hmove with
    | untouched _ _ _ hprefixes => rw [hprefixes]; exact DenyMap.kept_refl _ _ _
    | expired nowMs => exact DenyMap.kept_retain _ _ _
    | peer peer windowMs tie => exact DenyMap.kept_refl _ _ _
    | source source windowMs tie => exact DenyMap.kept_denyIn _ _ _ _ _ _

/-! ## The caps -/

/-- A deny call meets a cap that leaves room for the key it denies. -/
def HasRoom (cfg : AdmissionConfig) : AdmissionEvent → Prop
  | .denyPeer _ _ _ => 0 < cfg.maxDeniedPeers
  | .denyPrefix _ _ _ => 0 < cfg.maxDeniedPrefixes
  | _ => True

/-- Both deny maps are within their caps. -/
structure Capped (cfg : AdmissionConfig) (node : Admission) : Prop where
  peers : node.deniedUntil.size ≤ cfg.maxDeniedPeers
  prefixes : node.deniedPrefixUntil.size ≤ cfg.maxDeniedPrefixes

theorem capped_start (cfg : AdmissionConfig) (nowMs : Nat) : Capped cfg (start cfg nowMs).node where
  peers := Nat.zero_le _
  prefixes := Nat.zero_le _

theorem Capped.step (h : Capped cfg state.node) (hcfg : state.node.cfg = cfg)
    {event : AdmissionEvent} (hroom : HasRoom cfg event) :
    Capped cfg (state.step event).node := by
  have hmove := denyMove_step state event
  generalize (state.step event).node = next at hmove
  cases hmove with
  | untouched _ _ hpeers hprefixes => exact ⟨hpeers ▸ h.peers, hprefixes ▸ h.prefixes⟩
  | expired nowMs =>
    exact ⟨(DenyMap.size_retain_le _ _).trans h.peers,
      (DenyMap.size_retain_le _ _).trans h.prefixes⟩
  | peer peer windowMs tie =>
    refine ⟨?_, h.prefixes⟩
    unfold Admission.denyPeerFor
    rw [hcfg]
    exact DenyMap.size_denyIn_le hroom h.peers _ _ _ _
  | source source windowMs tie =>
    refine ⟨h.peers, ?_⟩
    unfold Admission.denyPrefixFor
    rw [hcfg]
    exact DenyMap.size_denyIn_le hroom h.prefixes _ _ _ _

theorem run_capped {nowMs : Nat} {events : List AdmissionEvent}
    (hobeys : Obeys step Allowed (start cfg nowMs) events)
    (hroom : ∀ event ∈ events, HasRoom cfg event) :
    Capped cfg (run step (start cfg nowMs) events).node := by
  refine run_induction
    (fun past => Obeys step Allowed (start cfg nowMs) past ∧ ∀ event ∈ past, HasRoom cfg event)
    (fun _ (state : Watched) => Capped cfg state.node) ?_ (capped_start cfg nowMs) ?_ events
    ⟨hobeys, hroom⟩
  · rintro past event ⟨hboth, hrooms⟩
    obtain ⟨hpast, -⟩ := (obeys_append past [event]).mp hboth
    exact ⟨hpast, fun earlier hearlier => hrooms earlier (List.mem_append_left _ hearlier)⟩
  · rintro past event ⟨hboth, hrooms⟩ hcapped
    obtain ⟨hpast, -⟩ := (obeys_append past [event]).mp hboth
    exact hcapped.step (run_accounts hpast).config (hrooms event (by simp))

/-- After a deny call without room the map it wrote is over its cap. -/
theorem hasRoom_of_capped {event : AdmissionEvent} (h : Capped cfg (state.step event).node) :
    HasRoom cfg event := by
  cases event with
  | denyPeer peer windowMs tie =>
    exact (DenyMap.size_denyIn_pos _ _ _ _ _ _).trans_le h.peers
  | denyPrefix source windowMs tie =>
    exact (DenyMap.size_denyIn_pos _ _ _ _ _ _).trans_le h.prefixes
  | _ => trivial

/-- Along every run of reports the accounts are exact, a connection is admitted only below its
prefix's quota and outside a deny window, no deny window ends early, and both deny maps stay
within their caps, precisely when no deny call meets a cap of zero. -/
theorem accounts_exact_iff (cfg : AdmissionConfig) (nowMs : Nat) (events : List AdmissionEvent)
    (hobeys : Obeys step Allowed (start cfg nowMs) events) :
    ((∀ past later, events = past ++ later → (run step (start cfg nowMs) past).Exact) ∧
      (∀ past event later, events = past ++ event :: later →
        (run step (start cfg nowMs) past).ExactStep event))
      ↔ ∀ event ∈ events, HasRoom cfg event := by
  constructor
  · rintro ⟨hexact, -⟩ event hevent
    obtain ⟨past, later, rfl⟩ := List.append_of_mem hevent
    have hreached := hexact (past ++ [event]) later (by simp)
    have hafter : Obeys step Allowed (start cfg nowMs) (past ++ [event]) := by
      rw [List.append_cons] at hobeys
      exact ((obeys_append _ _).mp hobeys).1
    have hconfig := (run_accounts hafter).config
    have hpeers := hreached.peers
    have hprefixes := hreached.prefixes
    rw [hconfig, run_concat] at hpeers hprefixes
    exact hasRoom_of_capped ⟨hpeers, hprefixes⟩
  · intro hroom
    refine ⟨?_, fun past event later _ => exactStep _ event⟩
    rintro past later rfl
    obtain ⟨hpast, -⟩ := (obeys_append past later).mp hobeys
    have hcapped := run_capped hpast fun event hevent =>
      hroom event (List.mem_append_left _ hevent)
    exact (run_accounts hpast).exact hcapped.peers hcapped.prefixes

/-- A connection that is admitted, established and closed under caps of one. -/
theorem accounts_exact_iff_one_connection :
    let cfg : AdmissionConfig := { maxDeniedPeers := 1, maxDeniedPrefixes := 1 }
    let remote : Multiaddr := [.ip4 0x0a000001]
    let events : List AdmissionEvent :=
      [.pending 7 remote, .denyPeer [1] 10 0, .denyPeer [2] 20 0,
        .established 7 [3] (.listener remote), .closed 7 [3] 0]
    Obeys step Allowed (start cfg 5) events ∧ (run step (start cfg 5) events).Exact := by
  have hobeys : Obeys step Allowed
      (start { maxDeniedPeers := 1, maxDeniedPrefixes := 1 } 5)
      [.pending 7 [.ip4 0x0a000001], .denyPeer [1] 10 0, .denyPeer [2] 20 0,
        .established 7 [3] (.listener [.ip4 0x0a000001]), .closed 7 [3] 0] := by
    refine ⟨rfl, trivial, trivial, ?_, .inl ⟨[.ip4 0x0a000001], rfl⟩, trivial⟩
    unfold Allowed
    decide +kernel
  refine ⟨hobeys, ?_⟩
  refine ((accounts_exact_iff _ _ _ hobeys).mpr ?_).1 _ [] (List.append_nil _).symm
  intro event hevent
  fin_cases hevent <;> simp [HasRoom]

/-- Under a cap of zero the first deny call leaves one entry in the map. -/
theorem deny_call_exceeds_zero_cap :
    ¬(run step (start { maxDeniedPeers := 0 } 5) [.denyPeer [1] 10 0]).Exact := by
  intro h
  exact absurd h.peers (by decide +kernel)

end Watched

end Net
end Mewtual
