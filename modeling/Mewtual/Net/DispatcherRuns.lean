import Mewtual.Lib.Run
import Mewtual.Net.Dispatcher

/-!
# Runs of the dispatcher

A run interleaves the calls of the dispatcher with the grants and revocations of leases. A peer
gets a new lease only after its old one was revoked, the dispatcher is told of connections under
the peer's present lease, and of a disconnection after that lease was revoked.

Beside the dispatcher a run keeps every payload offered to the queue, the log of emissions and, for
each dropped gossip payload, how many emissions preceded the drop.

Main results:

- Theorems {lit}`DispatchRun.Followed.step`, {lit}`DispatchRun.Kept.step` and
  {lit}`DispatchRun.Owed.step`: every call keeps the log in step with the lifecycles, the queue
  in order and every lost gossip payload on record.
- Theorem {lit}`DispatchRun.delivery_ordered`: ordering, no stale delivery, no silent gossip loss
  and no stall.
-/

namespace Mewtual
namespace Net

open Std

/-! ## Generations of a peer -/

/-- Where the emissions so far leave a peer. -/
inductive PeerPhase where
  | idle
  | connected (lease : Lease) (pathsSent : Bool)
  | clearing
deriving DecidableEq

/-- The emissions of a generation: a connect, path changes with payloads of the same lease after
the first of them, a disconnect and one empty path change. -/
def PeerPhase.after (peer : PeerId) (phase : PeerPhase) : Emission → Option PeerPhase
  | .connected who lease =>
    if who ≠ peer then some phase
    else
      match phase with
      | .idle => some (.connected lease false)
      | _ => none
  | .paths who active newly =>
    if who ≠ peer then some phase
    else
      match phase with
      | .connected lease _ => some (.connected lease true)
      | .clearing => if active = [] ∧ newly = none then some .idle else none
      | .idle => none
  | .disconnected who =>
    if who ≠ peer then some phase
    else
      match phase with
      | .connected _ _ => some .clearing
      | _ => none
  | .payload pending =>
    if pending.carrier ≠ peer then some phase
    else
      match phase with
      | .connected lease true => if lease = pending.ingress then some phase else none
      | _ => none
  | .recovery => some phase

/-- The phase of a peer after a log of emissions, if the log is a sequence of generations. -/
def phaseAfter (peer : PeerId) (log : List Emission) : Option PeerPhase :=
  log.foldlM (PeerPhase.after peer) .idle

theorem phaseAfter_concat (peer : PeerId) (log : List Emission) (emission : Emission) :
    phaseAfter peer (log ++ [emission])
      = (phaseAfter peer log).bind fun phase => phase.after peer emission := by
  simp [phaseAfter, List.foldlM_append]

namespace Lifecycle

/-- The phase a lifecycle remembers; a forgotten peer is idle. -/
def phase : Option Lifecycle → PeerPhase
  | none => .idle
  | some state =>
    if state.clearPaths then .clearing
    else
      match state.announced with
      | none => .idle
      | some lease => .connected lease state.paths.isSome

/-- Nothing is announced while paths are to be cleared, and paths are of an announced lease. -/
structure Shaped (state : Lifecycle) : Prop where
  clear : state.clearPaths = true → state.announced = none
  paths : state.announced = none → state.paths = none

theorem phase_of_clear {state : Lifecycle} (h : state.clearPaths = true) :
    phase (some state) = .clearing := by
  simp [phase, h]

theorem phase_of_announced {state : Lifecycle} (hclear : state.clearPaths = false)
    {lease : Lease} (h : state.announced = some lease) :
    phase (some state) = .connected lease state.paths.isSome := by
  simp [phase, hclear, h]

theorem phase_of_idle {state : Lifecycle} (hclear : state.clearPaths = false)
    (h : state.announced = none) : phase (some state) = .idle := by
  simp [phase, hclear, h]

end Lifecycle

namespace Dispatcher

variable {peer : PeerId} {state : Lifecycle} {emission : Emission} {next : Option Lifecycle}

/-- An edge of one peer's lifecycle is no edge of another's. -/
theorem Advance.after_other (h : Advance peer state emission next) {other : PeerId}
    (hother : peer ≠ other) (phase : PeerPhase) : phase.after other emission = some phase := by
  cases h <;> simp [PeerPhase.after, hother]

/-- An edge of a lifecycle keeps its shape and follows its phase. -/
theorem Advance.phase_eq (h : Advance peer state emission next) (hshaped : state.Shaped) :
    (Lifecycle.phase (some state)).after peer emission = some (Lifecycle.phase next) ∧
      (∀ kept ∈ next, kept.Shaped ∧ kept.actual = state.actual) ∧
      (next = none → state.actual = none) := by
  cases h with
  | clear hclear =>
    have hannounced := hshaped.clear hclear
    have hpaths := hshaped.paths hannounced
    refine ⟨?_, ?_, ?_⟩
    · rw [Lifecycle.phase_of_clear hclear]
      split
      · simp [PeerPhase.after, Lifecycle.phase]
      · simp [PeerPhase.after, Lifecycle.phase, hannounced]
    · intro kept hkept
      split at hkept
      · cases hkept
      · cases hkept
        exact ⟨⟨nofun, fun _ => hpaths⟩, rfl⟩
    · intro hnone
      split at hnone
      · rename_i hgone
        simpa using hgone.1
      · cases hnone
  | disconnect hclear old hannounced =>
    refine ⟨?_, ?_, nofun⟩
    · rw [Lifecycle.phase_of_announced hclear hannounced]
      simp [PeerPhase.after, Lifecycle.phase]
    · intro kept hkept
      cases hkept
      exact ⟨⟨fun _ => rfl, fun _ => rfl⟩, rfl⟩
  | connect hclear hannounced actual hactual =>
    have hpaths := hshaped.paths hannounced
    refine ⟨?_, ?_, nofun⟩
    · rw [Lifecycle.phase_of_idle hclear hannounced]
      simp [PeerPhase.after, Lifecycle.phase, hclear, hpaths]
    · intro kept hkept
      cases hkept
      exact ⟨⟨fun h => (by rw [hclear] at h; cases h), nofun⟩, rfl⟩
  | paths hclear actual hactual hannounced =>
    refine ⟨?_, ?_, nofun⟩
    · rw [Lifecycle.phase_of_announced hclear hannounced]
      simp [PeerPhase.after, Lifecycle.phase, hclear, hannounced]
    · intro kept hkept
      cases hkept
      exact ⟨⟨fun h => (by rw [hclear] at h; cases h),
        fun h => (by rw [hannounced] at h; cases h)⟩, rfl⟩

/-- What a call of {lit}`next` does. -/
inductive NextMove (dispatcher : Dispatcher) (live : Lease → Bool) :
    Option Emission × Dispatcher → Prop
  | silent (hready : (dispatcher.dropStale live).headReady live = false ∨
        (dispatcher.dropStale live).payloads = [])
      (hclean : ∀ (peer : PeerId) (state : Lifecycle),
        dispatcher.lifecycle[peer]? = some state → state.dirty live = false)
      (hlost : (dispatcher.dropStale live).lostGossip = false) :
      NextMove dispatcher live (none, dispatcher.dropStale live)
  | payload (pending : Pending) (rest : List Pending)
      (hpayloads : (dispatcher.dropStale live).payloads = pending :: rest)
      (hready : (dispatcher.dropStale live).headReady live = true)
      (hturn : (dispatcher.dropStale live).lostGossip = true → dispatcher.turn ≤ 0) :
      NextMove dispatcher live
        (some (.payload pending), { dispatcher.dropStale live with payloads := rest, turn := 1 })
  | lifecycle (peer : PeerId) (state : Lifecycle) (emission : Emission)
      (next : Option Lifecycle) (hget : dispatcher.lifecycle[peer]? = some state)
      (hadvance : Advance peer state emission next)
      (hturn : (dispatcher.dropStale live).lostGossip = true → dispatcher.turn ≤ 1) :
      NextMove dispatcher live (some emission, { dispatcher.dropStale live with
        cursor := some peer
        lifecycle := next.elim (dispatcher.lifecycle.erase peer)
          (dispatcher.lifecycle.insert peer)
        turn := 2 })
  | recovery (hlost : (dispatcher.dropStale live).lostGossip = true) :
      NextMove dispatcher live
        (some .recovery, { dispatcher.dropStale live with lostGossip := false, turn := 0 })

theorem nextMove (dispatcher : Dispatcher) (live : Lease → Bool) (hturn : dispatcher.turn < 3) :
    NextMove dispatcher live (dispatcher.nextEmission live) := by
  rcases nextEmission_spec dispatcher live hturn with ⟨heq, hnone⟩ |
    ⟨index, hindex, emission, next, hsource, heq, hrotates⟩
  · rw [heq]
    refine .silent ?_ ?_ ((source_two _ live).mp (hnone 2 (by omega)))
    · rcases source_zero (dispatcher.dropStale live) live with ⟨-, hwaits⟩ |
        ⟨pending, rest, -, -, hsome⟩
      · exact hwaits
      · rw [hnone 0 (by omega)] at hsome
        cases hsome
    · have hone : (dispatcher.dropStale live).nextLifecycle live = none := hnone 1 (by omega)
      rcases nextLifecycle_spec (dispatcher.dropStale live) live with ⟨-, hclean⟩ |
        ⟨peer, state, emission, next, -, -, hsome⟩
      · exact hclean
      · rw [hone] at hsome
        cases hsome
  · rw [heq]
    interval_cases index
    · rcases source_zero (dispatcher.dropStale live) live with ⟨hnone, -⟩ |
        ⟨pending, rest, hpayloads, hready, hsome⟩
      · rw [hnone] at hsource
        cases hsource
      · rw [hsome] at hsource
        cases hsource
        exact .payload pending rest hpayloads hready hrotates
    · change (dispatcher.dropStale live).nextLifecycle live = _ at hsource
      rcases nextLifecycle_spec (dispatcher.dropStale live) live with ⟨hnone, -⟩ |
        ⟨peer, state, edge, after, hget, hadvance, hsome⟩
      · rw [hnone] at hsource
        cases hsource
      · rw [hsome] at hsource
        cases hsource
        exact .lifecycle peer state emission after hget hadvance hrotates
    · cases hlost : (dispatcher.dropStale live).lostGossip with
      | false =>
        rw [(source_two _ live).mpr hlost] at hsource
        cases hsource
      | true =>
        have hsome : (dispatcher.dropStale live).source live 2 = some (.recovery,
            { dispatcher.dropStale live with lostGossip := false }) := if_pos hlost
        rw [hsome] at hsource
        cases hsource
        exact .recovery hlost

end Dispatcher

/-! ## Runs -/

/-- What happens to a dispatcher. -/
inductive DispatchEvent where
  | grant (peer : PeerId) (lease : Lease)
  | revoke (lease : Lease)
  | connected (peer : PeerId) (lease : Lease) (active : List ConnectionPath)
      (newly : Option ConnectionPath)
  | disconnected (peer : PeerId)
  | queue (payload : Payload) (carrier : PeerId) (ingress : Lease)
  | noteGossipLoss
  | next
deriving DecidableEq

structure DispatchRun where
  dispatcher : Dispatcher := {}
  /-- The present lease of each peer. -/
  granted : PeerId → Option Lease := fun _ => none
  issued : Finset Lease := ∅
  revoked : Finset Lease := ∅
  offers : List Pending := []
  accepted : List Pending := []
  log : List Emission := []
  /-- The dropped gossip payloads, each with the number of emissions before its drop. -/
  drops : List (Pending × Nat) := []

namespace DispatchRun

def live (state : DispatchRun) (lease : Lease) : Bool := lease ∉ state.revoked

/-- The drop records of dropped payloads. -/
def dropped (state : DispatchRun) (payloads : List Pending) : List (Pending × Nat) :=
  (payloads.filter fun pending => pending.event.isGossip).map fun pending =>
    (pending, state.log.length)

def step (state : DispatchRun) : DispatchEvent → DispatchRun
  | .grant peer lease =>
    { state with
      granted := Function.update state.granted peer (some lease)
      issued := insert lease state.issued }
  | .revoke lease => { state with revoked := insert lease state.revoked }
  | .connected peer lease active newly =>
    { state with dispatcher := (state.dispatcher.connected peer lease active newly).2 }
  | .disconnected peer => { state with dispatcher := state.dispatcher.disconnected peer }
  | .queue payload carrier ingress =>
    let pending : Pending := ⟨payload, carrier, ingress, state.offers.length⟩
    let (taken, dispatcher) := state.dispatcher.queue state.live pending
    { state with
      dispatcher := dispatcher
      offers := state.offers ++ [pending]
      accepted := if taken then state.accepted ++ [pending] else state.accepted
      drops := if taken then state.drops else state.drops ++ state.dropped [pending] }
  | .noteGossipLoss => { state with dispatcher := state.dispatcher.noteGossipLoss }
  | .next =>
    let (emission, dispatcher) := state.dispatcher.nextEmission state.live
    { state with
      dispatcher := dispatcher
      log := state.log ++ emission.toList
      drops := state.drops ++ state.dropped (state.dispatcher.stalePayloads state.live) }

/-- A peer gets a new lease only after its old one was revoked, connections are reported under
the peer's present lease, and a disconnection after that lease was revoked. -/
def Allowed (state : DispatchRun) : DispatchEvent → Prop
  | .grant peer lease => lease ∉ state.issued ∧ ∀ old ∈ state.granted peer, old ∈ state.revoked
  | .connected peer lease _ _ => state.granted peer = some lease
  | .disconnected peer => ∀ lease ∈ state.granted peer, lease ∈ state.revoked
  | .revoke _ | .queue _ _ _ | .noteGossipLoss | .next => True

instance (state : DispatchRun) : DecidablePred state.Allowed
  | .grant peer lease => inferInstanceAs (Decidable
      (lease ∉ state.issued ∧ ∀ old ∈ state.granted peer, old ∈ state.revoked))
  | .connected peer lease _ _ => inferInstanceAs (Decidable (state.granted peer = some lease))
  | .disconnected peer =>
    inferInstanceAs (Decidable (∀ lease ∈ state.granted peer, lease ∈ state.revoked))
  | .revoke _ | .queue _ _ _ | .noteGossipLoss | .next => inferInstanceAs (Decidable True)

/-- The payloads of a log, in the order of their emission. -/
def emitted (log : List Emission) : List Pending :=
  log.filterMap fun
    | .payload pending => some pending
    | _ => none

/-! ## Lifecycles and leases -/

/-- The log follows the lifecycles, and the payloads of a live lease wait behind the actual
connection of that lease. -/
structure Followed (state : DispatchRun) : Prop where
  turn : state.dispatcher.turn < 3
  shaped : ∀ (peer : PeerId) (life : Lifecycle),
    state.dispatcher.lifecycle[peer]? = some life → life.Shaped
  phases : ∀ peer : PeerId,
    phaseAfter peer state.log = some (Lifecycle.phase state.dispatcher.lifecycle[peer]?)
  leases : ∀ (peer : PeerId) (life : Lifecycle) (actual : Actual),
    state.dispatcher.lifecycle[peer]? = some life → life.actual = some actual →
    state.granted peer = some actual.lease ∨ actual.lease ∈ state.revoked
  queued : ∀ pending ∈ state.dispatcher.payloads, pending.ingress ∉ state.revoked →
    ∃ life actual, state.dispatcher.lifecycle[pending.carrier]? = some life ∧
      life.actual = some actual ∧ actual.lease = pending.ingress

theorem followed_start : ({} : DispatchRun).Followed where
  turn := by decide
  shaped peer life h := by simp at h
  phases peer := by simp [phaseAfter, Lifecycle.phase]
  leases peer life actual h := by simp at h
  queued pending h := by cases h

variable {state : DispatchRun} {pending : Pending} {peer : PeerId} {dispatcher : Dispatcher}

theorem Followed.grant (h : state.Followed) {lease : Lease}
    (hallowed : state.Allowed (.grant peer lease)) :
    (state.step (.grant peer lease)).Followed := { h with
  leases other life actual hget hactual := by
    rcases h.leases other life actual hget hactual with hgranted | hrevoked
    · by_cases hpeer : other = peer
      · subst hpeer
        exact .inr (hallowed.2 actual.lease hgranted)
      · left
        exact (Function.update_of_ne hpeer _ _).trans hgranted
    · exact .inr hrevoked }

theorem Followed.revoke (h : state.Followed) (lease : Lease) :
    (state.step (.revoke lease)).Followed := { h with
  leases peer life actual hget hactual :=
    (h.leases peer life actual hget hactual).imp_right (Finset.mem_insert_of_mem)
  queued pending hpending hlive :=
    h.queued pending hpending fun hrevoked => hlive (Finset.mem_insert_of_mem hrevoked) }

/-- One lifecycle of a state is replaced or forgotten, and payloads may leave the queue. -/
theorem Followed.replace {next : DispatchRun} (h : state.Followed) (peer : PeerId)
    (life : Option Lifecycle) (hturn : next.dispatcher.turn < 3)
    (hgranted : next.granted = state.granted) (hrevoked : next.revoked = state.revoked)
    (hpayloads : ∀ pending ∈ next.dispatcher.payloads, pending ∈ state.dispatcher.payloads)
    (hget : ∀ other : PeerId, next.dispatcher.lifecycle[other]?
      = if peer = other then life else state.dispatcher.lifecycle[other]?)
    (hshaped : ∀ kept ∈ life, kept.Shaped)
    (hphase : phaseAfter peer next.log = some (Lifecycle.phase life))
    (hothers : ∀ other, peer ≠ other → phaseAfter other next.log = phaseAfter other state.log)
    (hlease : ∀ kept ∈ life, ∀ actual, kept.actual = some actual →
      state.granted peer = some actual.lease ∨ actual.lease ∈ state.revoked)
    (hqueued : ∀ pending ∈ state.dispatcher.payloads, pending.ingress ∉ state.revoked →
      pending.carrier = peer → ∃ kept actual, life = some kept ∧ kept.actual = some actual ∧
        actual.lease = pending.ingress) : next.Followed := by
  refine ⟨hturn, ?_, ?_, ?_, ?_⟩
  · intro other found hfound
    rw [hget] at hfound
    split at hfound
    · exact hshaped found hfound
    · exact h.shaped other found hfound
  · intro other
    rw [hget]
    by_cases hpeer : peer = other
    · rw [if_pos hpeer, ← hpeer, hphase]
    · rw [if_neg hpeer, hothers other hpeer, h.phases other]
  · intro other found actual hfound hactual
    rw [hgranted, hrevoked]
    rw [hget] at hfound
    split at hfound
    · rename_i hpeer
      exact hpeer ▸ hlease found hfound actual hactual
    · exact h.leases other found actual hfound hactual
  · intro pending hpending hlive
    rw [hrevoked] at hlive
    rw [hget]
    by_cases hpeer : peer = pending.carrier
    · rw [if_pos hpeer]
      exact hqueued pending (hpayloads pending hpending) hlive hpeer.symm
    · rw [if_neg hpeer]
      exact h.queued pending (hpayloads pending hpending) hlive

/-- The actual connection behind a live payload is under the peer's present lease. -/
theorem Followed.present (h : state.Followed) (hpending : pending ∈ state.dispatcher.payloads)
    (hlive : pending.ingress ∉ state.revoked) :
    state.granted pending.carrier = some pending.ingress := by
  obtain ⟨life, actual, hget, hactual, hlease⟩ := h.queued pending hpending hlive
  rcases h.leases pending.carrier life actual hget hactual with hgranted | hrevoked
  · rw [hgranted, hlease]
  · exact absurd (hlease ▸ hrevoked) hlive

theorem connected_spec (dispatcher : Dispatcher) (peer : PeerId) (lease : Lease)
    (active : List ConnectionPath) (newly : Option ConnectionPath) :
    (dispatcher.connected peer lease active newly).2 = dispatcher ∨
      ∃ fresh, (dispatcher.connected peer lease active newly).2 = { dispatcher with
        lifecycle := dispatcher.lifecycle.insert peer
          { (dispatcher.lifecycle[peer]?).getD {} with
            actual := some ⟨lease, active⟩, newly := fresh } } := by
  unfold Dispatcher.connected
  split
  · exact .inl rfl
  · exact .inr ⟨_, rfl⟩

/-- A lifecycle keeps its shape and its phase when its actual connection changes. -/
theorem Followed.kept (h : state.Followed) (peer : PeerId) (actual : Option Actual)
    (newly : Option ConnectionPath) :
    let life : Lifecycle := { (state.dispatcher.lifecycle[peer]?).getD {} with
      actual := actual, newly := newly }
    life.Shaped ∧ Lifecycle.phase (some life)
      = Lifecycle.phase state.dispatcher.lifecycle[peer]? := by
  dsimp only
  cases hget : state.dispatcher.lifecycle[peer]? with
  | none => exact ⟨⟨nofun, fun _ => rfl⟩, rfl⟩
  | some old =>
    have hshaped := h.shaped peer old hget
    exact ⟨⟨hshaped.clear, hshaped.paths⟩, rfl⟩

theorem Followed.connected (h : state.Followed) {lease : Lease} {active : List ConnectionPath}
    {newly : Option ConnectionPath}
    (hallowed : state.Allowed (.connected peer lease active newly)) :
    (state.step (.connected peer lease active newly)).Followed := by
  unfold step
  dsimp only
  rcases connected_spec state.dispatcher peer lease active newly with hsame | ⟨fresh, hnext⟩
  · rw [hsame]
    exact h
  · rw [hnext]
    obtain ⟨hshaped, hphase⟩ := h.kept peer (some ⟨lease, active⟩) fresh
    refine h.replace peer (some _) h.turn rfl rfl (fun _ => id)
      (fun other => getElem?_insert_self_or peer other _) ?_ ?_ (fun _ _ => rfl) ?_ ?_
    · rintro kept ⟨⟩
      exact hshaped
    · rw [hphase]
      exact h.phases peer
    · rintro kept ⟨⟩ actual ⟨⟩
      exact .inl hallowed
    · rintro pending hpending hlive rfl
      have hpresent := h.present hpending hlive
      rw [hallowed] at hpresent
      exact ⟨_, _, rfl, rfl, Option.some.inj hpresent⟩

theorem Followed.disconnected (h : state.Followed) (hallowed : state.Allowed (.disconnected peer)) :
    (state.step (.disconnected peer)).Followed := by
  unfold step Dispatcher.disconnected
  dsimp only
  cases hold : state.dispatcher.lifecycle[peer]? with
  | none => exact h
  | some old =>
    dsimp only
    have hshaped := h.shaped peer old hold
    have hphase := h.phases peer
    rw [hold] at hphase
    -- A payload of this peer has a revoked lease.
    have hgone : ∀ pending ∈ state.dispatcher.payloads, pending.ingress ∉ state.revoked →
        pending.carrier ≠ peer := by
      rintro pending hpending hlive rfl
      exact hlive (hallowed pending.ingress (h.present hpending hlive))
    split
    · rename_i hidle
      obtain ⟨hannounced, hclear⟩ : old.announced = none ∧ old.clearPaths = false := by
        simpa using hidle
      refine h.replace peer none h.turn rfl rfl (fun _ => id)
        (fun other => getElem?_erase_self_or peer other) (nofun) ?_
        (fun _ _ => rfl) (nofun) ?_
      · rw [hphase, Lifecycle.phase_of_idle hclear hannounced]
        rfl
      · exact fun pending hpending hlive hcarrier =>
          absurd hcarrier (hgone pending hpending hlive)
    · refine h.replace peer (some _) h.turn rfl rfl (fun _ => id)
        (fun other => getElem?_insert_self_or peer other _) ?_ hphase (fun _ _ => rfl) ?_ ?_
      · rintro kept ⟨⟩
        exact ⟨hshaped.clear, hshaped.paths⟩
      · rintro kept ⟨⟩ actual ⟨⟩
      · exact fun pending hpending hlive hcarrier =>
          absurd hcarrier (hgone pending hpending hlive)

theorem carries_spec {carrier : PeerId} {ingress : Lease}
    (h : dispatcher.carries carrier ingress = true) :
    ∃ life actual, dispatcher.lifecycle[carrier]? = some life ∧ life.actual = some actual ∧
      actual.lease = ingress := by
  unfold Dispatcher.carries at h
  cases hget : dispatcher.lifecycle[carrier]? with
  | none => simp [hget] at h
  | some life =>
    rw [hget, Option.any_some] at h
    cases hactual : life.actual with
    | none => simp [hactual] at h
    | some actual => exact ⟨life, actual, rfl, hactual, by simpa [hactual] using h⟩

/-- A payload is taken only behind the actual connection of its live lease. -/
theorem queue_spec (dispatcher : Dispatcher) (live : Lease → Bool) (pending : Pending) :
    dispatcher.queue live pending = (false, { dispatcher with
        lostGossip := dispatcher.lostGossip || pending.event.isGossip }) ∨
      dispatcher.queue live pending = (true, { dispatcher with
        payloads := dispatcher.payloads ++ [pending] }) ∧
        dispatcher.carries pending.carrier pending.ingress = true := by
  unfold Dispatcher.queue
  split
  · exact .inl rfl
  · rename_i htaken
    simp only [not_or, Bool.not_eq_true, Bool.not_eq_false'] at htaken
    exact .inr ⟨rfl, htaken.2.2⟩

theorem Followed.queue (h : state.Followed) (payload : Payload) (carrier : PeerId)
    (ingress : Lease) :
    (state.step (.queue payload carrier ingress)).Followed := by
  unfold step
  dsimp only
  generalize (⟨payload, carrier, ingress, state.offers.length⟩ : Pending) = pending
  rcases queue_spec state.dispatcher state.live pending with heq | ⟨heq, hcarries⟩
  · rw [heq]
    exact ⟨h.turn, h.shaped, h.phases, h.leases, h.queued⟩
  · rw [heq]
    refine ⟨h.turn, h.shaped, h.phases, h.leases, ?_⟩
    exact forall_mem_concat h.queued fun _ => carries_spec hcarries

theorem mem_dropStale {live : Lease → Bool} (h : pending ∈ (dispatcher.dropStale live).payloads) :
    pending ∈ dispatcher.payloads :=
  (List.dropWhile_sublist _).subset h

/-- A payload at the head of the queue is ready in the phase of its own lease. -/
theorem headReady_spec {live : Lease → Bool} {rest : List Pending}
    (hpayloads : dispatcher.payloads = pending :: rest) (h : dispatcher.headReady live = true) :
    live pending.ingress = true ∧
      Lifecycle.phase dispatcher.lifecycle[pending.carrier]? = .connected pending.ingress true := by
  unfold Dispatcher.headReady at h
  rw [hpayloads, List.head?_cons, Option.any_some] at h
  cases hget : dispatcher.lifecycle[pending.carrier]? with
  | none => simp [hget] at h
  | some life =>
    rw [hget, Option.any_some] at h
    unfold Lifecycle.ready at h
    simp only [Bool.and_eq_true, Bool.not_eq_true', decide_eq_true_eq] at h
    obtain ⟨⟨⟨hlive, hclear⟩, hpaths⟩, hannounced⟩ := h
    exact ⟨hlive, by rw [Lifecycle.phase_of_announced hclear hannounced, hpaths]⟩

/-- A payload or a recovery leaves every lifecycle as it is. -/
theorem Followed.emit {next : DispatchRun} (h : state.Followed) {e : Emission}
    (hturn : next.dispatcher.turn < 3) (hgranted : next.granted = state.granted)
    (hrevoked : next.revoked = state.revoked) (hlog : next.log = state.log ++ [e])
    (hlife : next.dispatcher.lifecycle = state.dispatcher.lifecycle)
    (hpayloads : ∀ pending ∈ next.dispatcher.payloads, pending ∈ state.dispatcher.payloads)
    (hphase : ∀ peer : PeerId, (Lifecycle.phase state.dispatcher.lifecycle[peer]?).after peer e
      = some (Lifecycle.phase state.dispatcher.lifecycle[peer]?)) : next.Followed where
  turn := hturn
  shaped := by
    rw [hlife]
    exact h.shaped
  phases peer := by
    rw [hlog, phaseAfter_concat, h.phases peer, hlife, Option.bind_some, hphase]
  leases := by
    rw [hlife, hgranted, hrevoked]
    exact h.leases
  queued pending hpending hlive := by
    rw [hlife]
    rw [hrevoked] at hlive
    exact h.queued pending (hpayloads pending hpending) hlive

theorem Followed.next (h : state.Followed) :
    (state.step .next).Followed := by
  unfold step
  dsimp only
  have hmove := Dispatcher.nextMove state.dispatcher state.live h.turn
  generalize state.dispatcher.nextEmission state.live = outcome at hmove ⊢
  cases hmove with
  | silent hready hclean hlost =>
    refine ⟨h.turn, h.shaped, ?_, h.leases, fun pending hpending =>
      h.queued pending (mem_dropStale hpending)⟩
    intro peer
    rw [Option.toList_none, List.append_nil]
    exact h.phases peer
  | payload pending rest hpayloads hready hturn =>
    obtain ⟨-, hphase⟩ := headReady_spec hpayloads hready
    refine h.emit (e := .payload pending) (by simp) rfl rfl rfl rfl ?_ ?_
    · intro other hother
      exact mem_dropStale (hpayloads ▸ List.mem_cons_of_mem _ hother)
    · intro peer
      by_cases hpeer : pending.carrier = peer
      · subst hpeer
        rw [show state.dispatcher.lifecycle = (state.dispatcher.dropStale state.live).lifecycle
          from rfl, hphase]
        simp [PeerPhase.after]
      · simp [PeerPhase.after, hpeer]
  | recovery hlost =>
    refine h.emit (e := .recovery) (by simp) rfl rfl rfl rfl ?_ fun peer => rfl
    exact fun pending => mem_dropStale
  | lifecycle peer life emission kept hget hadvance hturn =>
    obtain ⟨hphase, hkept, hforgotten⟩ := hadvance.phase_eq (h.shaped peer life hget)
    have hbefore := h.phases peer
    rw [hget] at hbefore
    refine h.replace peer kept (by simp) rfl rfl
      (fun pending => mem_dropStale) ?_ (fun found hfound => (hkept found hfound).1) ?_ ?_ ?_ ?_
    · intro other
      cases kept with
      | none => exact getElem?_erase_self_or peer other
      | some found => exact getElem?_insert_self_or peer other found
    · rw [Option.toList_some, phaseAfter_concat, hbefore, Option.bind_some, hphase]
    · intro other hother
      rw [Option.toList_some, phaseAfter_concat]
      cases phaseAfter other state.log with
      | none => rfl
      | some phase => exact hadvance.after_other hother phase
    · intro found hfound actual hactual
      rw [(hkept found hfound).2] at hactual
      exact h.leases peer life actual hget hactual
    · rintro pending hpending hlive rfl
      obtain ⟨found, actual, hfound, hactual, hlease⟩ := h.queued pending hpending hlive
      rw [hget] at hfound
      cases hfound
      cases kept with
      | none =>
        rw [hforgotten rfl] at hactual
        cases hactual
      | some after =>
        exact ⟨after, actual, rfl, (hkept after rfl).2.trans hactual, hlease⟩

theorem Followed.step (state : DispatchRun) (event : DispatchEvent) (h : state.Followed)
    (hallowed : state.Allowed event) : (state.step event).Followed := by
  cases event with
  | grant peer lease => exact h.grant hallowed
  | revoke lease => exact h.revoke lease
  | connected peer lease active newly => exact h.connected hallowed
  | disconnected peer => exact h.disconnected hallowed
  | queue payload carrier ingress => exact h.queue payload carrier ingress
  | noteGossipLoss => exact ⟨h.turn, h.shaped, h.phases, h.leases, h.queued⟩
  | next => exact h.next

/-! ## The queue -/

/-- Payloads are emitted in the order they were taken, and a gossip payload that was offered is
emitted, waiting or recorded as dropped. -/
structure Kept (state : DispatchRun) : Prop where
  order : (emitted state.log ++ state.dispatcher.payloads).Sublist state.accepted
  accepted : state.accepted.Sublist state.offers
  offered : ∀ pending ∈ state.offers, pending.event.isGossip = true →
    pending ∈ emitted state.log ∨ pending ∈ state.dispatcher.payloads ∨
      ∃ count, (pending, count) ∈ state.drops
  serials : state.offers.map Pending.serial = List.range state.offers.length

theorem kept_start : ({} : DispatchRun).Kept where
  order := List.Sublist.refl _
  accepted := List.Sublist.refl _
  offered pending h := by cases h
  serials := rfl

/-- Only the dispatcher's lifecycles, leases or obligations changed. -/
structure Framed (state next : DispatchRun) : Prop where
  log : next.log = state.log
  offers : next.offers = state.offers
  accepted : next.accepted = state.accepted
  drops : next.drops = state.drops
  payloads : next.dispatcher.payloads = state.dispatcher.payloads
  turn : next.dispatcher.turn = state.dispatcher.turn
  lost : state.dispatcher.lostGossip = true → next.dispatcher.lostGossip = true

/-- Apart from offers and emissions every event is one of leases and lifecycles. -/
theorem framed_step (state : DispatchRun) (event : DispatchEvent)
    (hqueue : ∀ payload carrier ingress, event ≠ .queue payload carrier ingress)
    (hnext : event ≠ .next) : Framed state (state.step event) := by
  cases event with
  | grant | revoke => exact ⟨rfl, rfl, rfl, rfl, rfl, rfl, id⟩
  | noteGossipLoss => exact ⟨rfl, rfl, rfl, rfl, rfl, rfl, fun _ => rfl⟩
  | connected peer lease active newly =>
    unfold step
    dsimp only
    rcases connected_spec state.dispatcher peer lease active newly with hsame | ⟨fresh, hnext⟩
    · rw [hsame]
      exact ⟨rfl, rfl, rfl, rfl, rfl, rfl, id⟩
    · rw [hnext]
      exact ⟨rfl, rfl, rfl, rfl, rfl, rfl, id⟩
  | disconnected peer =>
    unfold step Dispatcher.disconnected
    dsimp only
    split
    · exact ⟨rfl, rfl, rfl, rfl, rfl, rfl, id⟩
    · split <;> exact ⟨rfl, rfl, rfl, rfl, rfl, rfl, id⟩
  | queue payload carrier ingress => exact absurd rfl (hqueue payload carrier ingress)
  | next => exact absurd rfl hnext

theorem Kept.frame {next : DispatchRun} (h : state.Kept) (hframe : Framed state next) :
    next.Kept where
  order := by rw [hframe.log, hframe.payloads, hframe.accepted]; exact h.order
  accepted := by rw [hframe.accepted, hframe.offers]; exact h.accepted
  offered := by rw [hframe.log, hframe.payloads, hframe.offers, hframe.drops]; exact h.offered
  serials := by rw [hframe.offers]; exact h.serials

theorem Kept.queue (h : state.Kept) (payload : Payload) (carrier : PeerId) (ingress : Lease) :
    (state.step (.queue payload carrier ingress)).Kept := by
  unfold step
  dsimp only
  have hserials : ∀ pending : Pending, pending.serial = state.offers.length →
      (state.offers ++ [pending]).map Pending.serial
        = List.range (state.offers ++ [pending]).length := by
    intro pending hserial
    rw [List.map_append, h.serials, List.map_singleton, hserial, List.length_append,
      List.length_singleton, List.range_succ]
  generalize hpending : (⟨payload, carrier, ingress, state.offers.length⟩ : Pending) = pending
  have hserial := hserials pending (by rw [← hpending])
  rcases queue_spec state.dispatcher state.live pending with heq | ⟨heq, -⟩
  · rw [heq]
    refine ⟨h.order, h.accepted.trans (List.sublist_append_left _ _), ?_, hserial⟩
    intro offer hoffer hgossip
    rcases List.mem_append.mp hoffer with hold | hnew
    · rcases h.offered offer hold hgossip with hdone | hwaiting | ⟨count, hdropped⟩
      · exact .inl hdone
      · exact .inr (.inl hwaiting)
      · exact .inr (.inr ⟨count, List.mem_append_left _ hdropped⟩)
    · rw [List.mem_singleton.mp hnew] at hgossip ⊢
      refine .inr (.inr ⟨state.log.length, List.mem_append_right _ ?_⟩)
      simp [dropped, hgossip]
  · rw [heq]
    refine ⟨?_, h.accepted.append (List.Sublist.refl _), ?_, hserial⟩
    · dsimp only
      rw [← List.append_assoc]
      exact h.order.append (List.Sublist.refl _)
    · intro offer hoffer hgossip
      rcases List.mem_append.mp hoffer with hold | hnew
      · rcases h.offered offer hold hgossip with hdone | hwaiting | hdropped
        · exact .inl hdone
        · exact .inr (.inl (List.mem_append_left _ hwaiting))
        · exact .inr (.inr hdropped)
      · exact .inr (.inl (List.mem_append_right _ hnew))

theorem emitted_concat (log : List Emission) (emission : Emission) :
    emitted (log ++ [emission]) = emitted log ++ emitted [emission] := by
  simp [emitted]

theorem emitted_advance {life : Lifecycle} {emission : Emission} {next : Option Lifecycle}
    (h : Dispatcher.Advance peer life emission next) : emitted [emission] = [] := by
  cases h <;> rfl

/-- The front of the queue goes, what stays keeps its order. -/
theorem payloads_split (dispatcher : Dispatcher) (live : Lease → Bool) :
    dispatcher.stalePayloads live ++ (dispatcher.dropStale live).payloads
      = dispatcher.payloads :=
  List.takeWhile_append_dropWhile

theorem Kept.next (h : state.Kept) (hturn : state.dispatcher.turn < 3) :
    (state.step .next).Kept := by
  have hsplit := payloads_split state.dispatcher state.live
  have hstale : ∀ pending ∈ state.dispatcher.payloads, pending.event.isGossip = true →
      pending ∈ (state.dispatcher.dropStale state.live).payloads ∨
        (pending, state.log.length)
          ∈ state.dropped (state.dispatcher.stalePayloads state.live) := by
    intro pending hpending hgossip
    rw [← hsplit] at hpending
    rcases List.mem_append.mp hpending with hgone | hstays
    · exact .inr (List.mem_map_of_mem (List.mem_filter.mpr ⟨hgone, hgossip⟩))
    · exact .inl hstays
  have horder : (emitted state.log ++ (state.dispatcher.dropStale state.live).payloads).Sublist
      state.accepted := by
    refine List.Sublist.trans ?_ h.order
    exact (List.Sublist.refl _).append (List.dropWhile_sublist _)
  have hquiet : ∀ {e : Emission}, emitted [e] = [] →
      emitted (state.log ++ (some e).toList) = emitted state.log := by
    intro e hnone
    rw [Option.toList_some, emitted_concat, hnone, List.append_nil]
  -- An emission moves at most the head of the queue into the log.
  have hoffered : ∀ {log : List Emission} {payloads : List Pending},
      (∀ pending ∈ (state.dispatcher.dropStale state.live).payloads,
        pending ∈ emitted log ∨ pending ∈ payloads) →
      (∀ pending ∈ emitted state.log, pending ∈ emitted log) →
      ∀ pending ∈ state.offers, pending.event.isGossip = true →
        pending ∈ emitted log ∨ pending ∈ payloads ∨ ∃ count, (pending, count) ∈ state.drops
          ++ state.dropped (state.dispatcher.stalePayloads state.live) := by
    intro log payloads hmoved hlog pending hpending hgossip
    rcases h.offered pending hpending hgossip with hdone | hwaiting | ⟨count, hdropped⟩
    · exact .inl (hlog pending hdone)
    · rcases hstale pending hwaiting hgossip with hstays | hgone
      · exact (hmoved pending hstays).imp_right .inl
      · exact .inr (.inr ⟨_, List.mem_append_right _ hgone⟩)
    · exact .inr (.inr ⟨count, List.mem_append_left _ hdropped⟩)
  unfold step
  dsimp only
  have hmove := Dispatcher.nextMove state.dispatcher state.live hturn
  generalize state.dispatcher.nextEmission state.live = outcome at hmove ⊢
  cases hmove with
  | silent hready hclean hlost =>
    dsimp only
    rw [Option.toList_none, List.append_nil]
    exact ⟨horder, h.accepted, hoffered (fun _ => .inr) (fun _ => id), h.serials⟩
  | payload pending rest hpayloads hready hrotates =>
    have hlog : emitted (state.log ++ [.payload pending]) = emitted state.log ++ [pending] :=
      emitted_concat _ _
    rw [hpayloads] at horder hoffered
    refine ⟨?_, h.accepted, hoffered ?_ ?_, h.serials⟩
    · dsimp only
      rw [Option.toList_some, hlog, List.append_assoc]
      exact horder
    · intro other hother
      rw [Option.toList_some, hlog]
      rcases List.mem_cons.mp hother with rfl | hrest
      · exact .inl (by simp)
      · exact .inr hrest
    · intro other hother
      rw [Option.toList_some, hlog]
      exact List.mem_append_left _ hother
  | lifecycle peer life emission kept hget hadvance hrotates =>
    have hlog := hquiet (emitted_advance hadvance)
    exact ⟨hlog ▸ horder, h.accepted, hoffered (fun _ => .inr) (fun _ => hlog ▸ id), h.serials⟩
  | recovery hlost =>
    have hlog := hquiet (e := .recovery) rfl
    exact ⟨hlog ▸ horder, h.accepted, hoffered (fun _ => .inr) (fun _ => hlog ▸ id), h.serials⟩

theorem Kept.step (state : DispatchRun) (event : DispatchEvent) (h : state.Kept)
    (hturn : state.dispatcher.turn < 3) : (state.step event).Kept := by
  cases event with
  | queue payload carrier ingress => exact h.queue payload carrier ingress
  | next => exact h.next hturn
  | grant | revoke | connected | disconnected | noteGossipLoss =>
    exact h.frame (framed_step state _ (fun _ _ _ => nofun) nofun)

/-! ## Lost gossip -/

/-- A recovery was emitted within three emissions. -/
def Recovered (log : List Emission) (count : Nat) : Prop :=
  ∃ index, count ≤ index ∧ index < count + 3 ∧ log[index]? = some .recovery

theorem Recovered.append {log : List Emission} {count : Nat} (h : Recovered log count)
    (more : List Emission) : Recovered (log ++ more) count := by
  obtain ⟨index, hafter, hwithin, hget⟩ := h
  have hlt : index < log.length := (List.getElem?_eq_some_iff.mp hget).1
  exact ⟨index, hafter, hwithin, by rw [List.getElem?_append_left hlt, hget]⟩

/-- Every dropped gossip payload was followed by a recovery, or one is owed and its turn comes in
time. -/
def Owed (state : DispatchRun) : Prop :=
  ∀ pending count, (pending, count) ∈ state.drops → count ≤ state.log.length ∧
    (Recovered state.log count ∨
      state.dispatcher.lostGossip = true ∧ state.log.length ≤ count + state.dispatcher.turn)

theorem owed_start : ({} : DispatchRun).Owed := by
  intro pending count h
  cases h

theorem mem_dropped {payloads : List Pending} {count : Nat}
    (h : (pending, count) ∈ state.dropped payloads) :
    pending ∈ payloads ∧ pending.event.isGossip = true ∧ count = state.log.length := by
  obtain ⟨found, hfound, heq⟩ := List.mem_map.mp h
  cases heq
  exact ⟨(List.mem_filter.mp hfound).1, (List.mem_filter.mp hfound).2, rfl⟩

theorem Owed.frame {next : DispatchRun} (h : state.Owed) (hframe : Framed state next) :
    next.Owed := by
  intro pending count hdrop
  rw [hframe.drops] at hdrop
  rw [hframe.log, hframe.turn]
  obtain ⟨hcount, howed⟩ := h pending count hdrop
  exact ⟨hcount, howed.imp_right (And.imp_left hframe.lost)⟩

theorem Owed.queue (h : state.Owed) (payload : Payload) (carrier : PeerId) (ingress : Lease) :
    (state.step (.queue payload carrier ingress)).Owed := by
  unfold step
  dsimp only
  generalize (⟨payload, carrier, ingress, state.offers.length⟩ : Pending) = offer
  rcases queue_spec state.dispatcher state.live offer with heq | ⟨heq, -⟩
  · rw [heq]
    intro pending count hdrop
    rcases List.mem_append.mp hdrop with hold | hnew
    · obtain ⟨hcount, howed⟩ := h pending count hold
      refine ⟨hcount, howed.imp_right fun hlost => ⟨?_, hlost.2⟩⟩
      simp [hlost.1]
    · obtain ⟨hmem, hgossip, rfl⟩ := mem_dropped hnew
      rw [List.mem_singleton.mp hmem] at hgossip
      refine ⟨Nat.le_refl _, .inr ⟨?_, Nat.le_add_right _ _⟩⟩
      simp [hgossip]
  · rw [heq]
    exact h

/-- After the stale payloads are dropped, the drops of this call are owed too. -/
theorem Owed.dropStale (h : state.Owed) {count : Nat} (hdrop : (pending, count) ∈ state.drops
      ++ state.dropped (state.dispatcher.stalePayloads state.live)) :
    count ≤ state.log.length ∧ (Recovered state.log count ∨
      (state.dispatcher.dropStale state.live).lostGossip = true ∧
        state.log.length ≤ count + state.dispatcher.turn) := by
  rcases List.mem_append.mp hdrop with hold | hnew
  · obtain ⟨hcount, howed⟩ := h pending count hold
    refine ⟨hcount, howed.imp_right fun hlost => ⟨?_, hlost.2⟩⟩
    simp [Dispatcher.dropStale, hlost.1]
  · obtain ⟨hmem, hgossip, rfl⟩ := mem_dropped hnew
    refine ⟨Nat.le_refl _, .inr ⟨?_, Nat.le_add_right _ _⟩⟩
    simp only [Dispatcher.dropStale, Bool.or_eq_true, List.any_eq_true]
    exact .inr ⟨pending, hmem, hgossip⟩

theorem Owed.next (h : state.Owed) (hturn : state.dispatcher.turn < 3) :
    (state.step .next).Owed := by
  unfold step
  dsimp only
  have hmove := Dispatcher.nextMove state.dispatcher state.live hturn
  generalize state.dispatcher.nextEmission state.live = outcome at hmove ⊢
  intro pending count hdrop
  obtain ⟨hcount, howed⟩ := h.dropStale hdrop
  -- Once recovered, always recovered; what is left is the emission that follows an open debt.
  rcases howed with hdone | ⟨hlost, hsoon⟩
  · refine ⟨?_, .inl (hdone.append _)⟩
    dsimp only
    rw [List.length_append]
    omega
  cases hmove with
  | silent hready hclean hclear =>
    rw [hclear] at hlost
    cases hlost
  | payload head rest hpayloads hready hrotates =>
    have hfirst := hrotates hlost
    simp only [Option.toList_some, List.length_append, List.length_singleton]
    exact ⟨by omega, .inr ⟨hlost, by omega⟩⟩
  | lifecycle peer life emission kept hget hadvance hrotates =>
    have hsecond := hrotates hlost
    simp only [Option.toList_some, List.length_append, List.length_singleton]
    exact ⟨by omega, .inr ⟨hlost, by omega⟩⟩
  | recovery =>
    simp only [Option.toList_some, List.length_append, List.length_singleton]
    refine ⟨by omega, .inl ⟨state.log.length, hcount, by omega, ?_⟩⟩
    simp

theorem Owed.step (state : DispatchRun) (event : DispatchEvent) (h : state.Owed)
    (hturn : state.dispatcher.turn < 3) : (state.step event).Owed := by
  cases event with
  | queue payload carrier ingress => exact h.queue payload carrier ingress
  | next => exact h.next hturn
  | grant | revoke | connected | disconnected | noteGossipLoss =>
    exact h.frame (framed_step state _ (fun _ _ _ => nofun) nofun)

/-! ## Delivery -/

/-- What every run keeps. -/
structure Sound (state : DispatchRun) : Prop where
  followed : state.Followed
  kept : state.Kept
  owed : state.Owed

theorem sound_of_obeys {events : List DispatchEvent}
    (hrun : Obeys step Allowed ({} : DispatchRun) events) : (run step {} events).Sound := by
  refine hrun.run_induction Sound ⟨followed_start, kept_start, owed_start⟩ ?_
  intro state event hsound hallowed
  have hturn := hsound.followed.turn
  exact ⟨hsound.followed.step state event hallowed, hsound.kept.step state event hturn,
    hsound.owed.step state event hturn⟩

/-- A live head of the queue behind a clean lifecycle is ready. -/
theorem ready_of_clean {life : Lifecycle} {live : Lease → Bool} {actual : Actual}
    (hactual : life.actual = some actual) (hlive : live actual.lease = true)
    (hclean : life.dirty live = false) : life.ready live actual.lease = true := by
  unfold Lifecycle.dirty at hclean
  split at hclean
  · cases hclean
  · rename_i hclear
    rw [hactual] at hclean
    cases hannounced : life.announced with
    | none => simp [hannounced, hlive] at hclean
    | some old =>
      simp only [hannounced] at hclean
      split at hclean
      · rename_i hsame
        obtain ⟨-, hold⟩ : live old = true ∧ old = actual.lease := by simpa using hsame
        obtain ⟨hpaths, -⟩ : life.paths = some actual.active ∧ life.newly = none := by
          simpa using hclean
        simp [Lifecycle.ready, hlive, hclear, hpaths, hannounced, hold]
      · cases hclean

/-- When the call emits nothing, nothing is left to emit. -/
theorem Followed.silent (h : state.Followed) (hnone : (state.dispatcher.next state.live).1 = none) :
    (state.dispatcher.next state.live).2.hasPending state.live = false := by
  have hmove := Dispatcher.nextMove state.dispatcher state.live h.turn
  unfold Dispatcher.next at hnone ⊢
  generalize state.dispatcher.nextEmission state.live = outcome at hmove hnone ⊢
  cases hmove with
  | payload | lifecycle | recovery => cases hnone
  | silent hready hclean hlost =>
    have hempty : (state.dispatcher.dropStale state.live).payloads = [] := by
      rcases hready with hwaits | hempty
      · cases hpayloads : (state.dispatcher.dropStale state.live).payloads with
        | nil => rfl
        | cons head rest =>
          -- The head survived the drop, so its lease is live and its lifecycle clean.
          have hmem : head ∈ state.dispatcher.payloads :=
            mem_dropStale (hpayloads ▸ List.mem_cons_self)
          have hlive : state.live head.ingress = true := by
            have hhead := List.head?_dropWhile_not
              (fun pending : Pending => !state.live pending.ingress) state.dispatcher.payloads
            rw [show state.dispatcher.payloads.dropWhile
              (fun pending => !state.live pending.ingress) = head :: rest from hpayloads]
              at hhead
            simpa using hhead
          obtain ⟨life, actual, hget, hactual, hlease⟩ :=
            h.queued head hmem (by simpa [live] using hlive)
          have hsent := ready_of_clean hactual (hlease ▸ hlive)
            (hclean head.carrier life hget)
          rw [hlease] at hsent
          unfold Dispatcher.headReady at hwaits
          rw [hpayloads, List.head?_cons, Option.any_some] at hwaits
          rw [show (state.dispatcher.dropStale state.live).lifecycle[head.carrier]? = some life
            from hget, Option.any_some, hsent] at hwaits
          cases hwaits
      · exact hempty
    have hdirty : ((state.dispatcher.dropStale state.live).lifecycle.toList.any fun entry =>
        entry.2.dirty state.live) = false := by
      rw [List.any_eq_false]
      intro entry hentry
      have hget := ExtTreeMap.mem_toList_iff_getElem?_eq_some.mp hentry
      simp [hclean entry.1 entry.2 hget]
    unfold Dispatcher.hasPending
    rw [hempty, hlost, hdirty]
    rfl

/-- A payload is emitted on the live, announced lease it arrived on. -/
theorem Followed.payload (h : state.Followed)
    (hemits : (state.dispatcher.nextEmission state.live).1 = some (.payload pending)) :
    pending.ingress ∉ state.revoked ∧
      phaseAfter pending.carrier state.log = some (.connected pending.ingress true) := by
  have hmove := Dispatcher.nextMove state.dispatcher state.live h.turn
  generalize state.dispatcher.nextEmission state.live = outcome at hmove hemits
  cases hmove with
  | silent | recovery => cases hemits
  | lifecycle peer life emission kept hget hadvance hrotates =>
    cases hemits
    cases hadvance
  | payload head rest hpayloads hready hrotates =>
    cases hemits
    obtain ⟨hlive, hphase⟩ := headReady_spec hpayloads hready
    refine ⟨by simpa [live] using hlive, ?_⟩
    rw [h.phases pending.carrier]
    exact congrArg some hphase

/-- An owed recovery is something to emit. -/
theorem Followed.emits_of_lost (h : state.Followed) (hlost : state.dispatcher.lostGossip = true) :
    (state.dispatcher.next state.live).1 ≠ none := by
  intro hnone
  have hmove := Dispatcher.nextMove state.dispatcher state.live h.turn
  unfold Dispatcher.next at hnone
  generalize state.dispatcher.nextEmission state.live = outcome at hmove hnone
  cases hmove with
  | payload | lifecycle | recovery => cases hnone
  | silent hready hclean hclear => simp [Dispatcher.dropStale, hlost] at hclear

/-- In every run the events of a peer form generations, a payload is delivered on the live lease
it arrived on and after that lease's connect and paths, payloads keep the order of the queue, a
gossip payload that is not delivered has its recovery within three emissions of the drop, and the
dispatcher is silent only when nothing is pending. -/
theorem delivery_ordered (events : List DispatchEvent)
    (hrun : Obeys step Allowed ({} : DispatchRun) events) :
    let state := run step {} events
    (∀ peer, (phaseAfter peer state.log).isSome = true) ∧
      (∀ pending, (state.dispatcher.nextEmission state.live).1 = some (.payload pending) →
        pending.ingress ∉ state.revoked ∧
          phaseAfter pending.carrier state.log = some (.connected pending.ingress true)) ∧
      ((emitted state.log).Sublist state.offers ∧
        state.offers.Pairwise fun first second => first.serial < second.serial) ∧
      (∀ pending ∈ state.offers, pending.event.isGossip = true →
        pending ∈ emitted state.log ∨ pending ∈ state.dispatcher.payloads ∨
          ∃ count ≤ state.log.length, (pending, count) ∈ state.drops ∧
            (Recovered state.log count ∨
              state.log.length < count + 3 ∧ (state.dispatcher.next state.live).1 ≠ none)) ∧
      ((state.dispatcher.next state.live).1 = none →
        (state.dispatcher.next state.live).2.hasPending state.live = false) := by
  intro state
  have hsound : state.Sound := sound_of_obeys hrun
  refine ⟨?_, fun pending => hsound.followed.payload, ⟨?_, ?_⟩, ?_, hsound.followed.silent⟩
  · intro peer
    rw [hsound.followed.phases peer]
    rfl
  · exact (List.sublist_append_left _ _).trans (hsound.kept.order.trans hsound.kept.accepted)
  · rw [← List.pairwise_map (f := Pending.serial) (R := (· < ·)), hsound.kept.serials]
    exact List.pairwise_lt_range
  · intro pending hpending hgossip
    rcases hsound.kept.offered pending hpending hgossip with hdone | hwaiting | ⟨count, hdrop⟩
    · exact .inl hdone
    · exact .inr (.inl hwaiting)
    · obtain ⟨hcount, howed⟩ := hsound.owed pending count hdrop
      refine .inr (.inr ⟨count, hcount, hdrop, howed.imp_right ?_⟩)
      rintro ⟨hlost, hsoon⟩
      have hturn := hsound.followed.turn
      exact ⟨by omega, hsound.followed.emits_of_lost hlost⟩

/-- A gossip payload is delivered; a second one waits behind it when the lease is revoked, is
dropped and answered by a recovery. -/
theorem delivery_ordered_one_loss :
    let first : Pending := ⟨.gossip [7], 0, 1, 0⟩
    let second : Pending := ⟨.gossip [8], 0, 1, 1⟩
    let events : List DispatchEvent :=
      [.grant 0 1, .connected 0 1 [] none, .queue (.gossip [7]) 0 1, .queue (.gossip [8]) 0 1,
        .next, .next, .next, .revoke 1, .disconnected 0, .next, .next, .next]
    let state := run step {} events
    state.log = [.connected 0 1, .paths 0 [] none, .payload first, .disconnected 0, .recovery,
        .paths 0 [] none] ∧
      state.drops = [(second, 3)] ∧
      (emitted state.log).Sublist state.offers ∧
      (state.dispatcher.next state.live).2.hasPending state.live = false := by
  intro first second events state
  have hrun : Obeys step Allowed ({} : DispatchRun) events := by
    refine ⟨?_, ?_, trivial, trivial, trivial, trivial, trivial, trivial, ?_, trivial, trivial,
      trivial, trivial⟩
    all_goals decide +kernel
  obtain ⟨-, -, ⟨horder, -⟩, -, hsilent⟩ := delivery_ordered events hrun
  exact ⟨by decide +kernel, by decide +kernel, horder, hsilent (by decide +kernel)⟩

end DispatchRun

end Net
end Mewtual
