import Mewtual.Net.ConnectionAdmission

/-!
# Relay byte budgets

A relay counts the bytes it moves per peer and per source prefix. The counters are cumulative;
the usage of a budget window is their difference against a base that is re-read when the window
rolls. A counter is shared by the map and by every live connection of its key, and a reap drops
the counters that only the map holds.

The connections run beside the event loop's sweep, so a sweep is the list of the acts it does on
the meters, each under its own lock, and a run is any sequence of acts. Beside the meters a run
carries a tally of what was really moved.

Main results:

- Theorem {lit}`MeteredRun.Sound.act`: one act keeps the meters in agreement with the tallies.
- Theorem {lit}`MeteredRun.usage_exact_unless_dropped`: the usage of a window is exact as long as
  no counter of the key that had counted anything was dropped in that window.
-/

namespace Mewtual
namespace Net

open Std

/-! ## One meter -/

/-- Cumulative counters by key and their values when the window started. -/
structure Meter (κ : Type) [Ord κ] where
  counters : ExtTreeMap κ Nat
  base : ExtTreeMap κ Nat

namespace Meter

variable {κ : Type} [Ord κ] [TransOrd κ]

def empty : Meter κ := ⟨∅, ∅⟩

/-- {lit}`peer_bytes`, {lit}`prefix_bytes`. -/
def bytes (meter : Meter κ) (key : κ) : Nat := (meter.counters[key]?).getD 0

def baseline (meter : Meter κ) (key : κ) : Nat := (meter.base[key]?).getD 0

/-- {lit}`counter_for`, {lit}`prefix_counter_for`: {lit}`entry(key).or_default()`. -/
def counterFor (meter : Meter κ) (key : κ) : Meter κ :=
  { meter with counters := meter.counters.insert key (meter.bytes key) }

/-- {lit}`fetch_add` on the shared counter of a key, which wraps. -/
def charge (meter : Meter κ) (key : κ) (n : Nat) : Meter κ :=
  match meter.counters[key]? with
  | none => meter
  | some total => { meter with counters := meter.counters.insert key ((total + n) % 2 ^ 64) }

/-- Keep the counters that a live connection holds. -/
def reap (meter : Meter κ) (held : κ → Bool) : Meter κ :=
  { meter with counters := meter.counters.filter fun key _ => held key }

/-- Re-read the base. -/
def roll (meter : Meter κ) : Meter κ := { meter with base := meter.counters }

/-- The usage this window: a saturating difference against the base. -/
def used (meter : Meter κ) (key : κ) : Nat := meter.bytes key - meter.baseline key

/-- {lit}`peers_over_budget`, {lit}`prefixes_over_budget`. -/
def overBudget (meter : Meter κ) (budget : Nat) : List (κ × Nat) :=
  meter.counters.toList.filterMap fun (key, total) =>
    let used := total - meter.baseline key
    if budget < used then some (key, used) else none

variable [LawfulEqOrd κ]

/-- A key is reported precisely when its usage is over the budget. -/
theorem mem_overBudget {meter : Meter κ} {budget : Nat} {key : κ} {used : Nat} :
    (key, used) ∈ meter.overBudget budget ↔ used = meter.used key ∧ budget < used := by
  unfold overBudget
  simp only [List.mem_filterMap, Prod.exists, ExtTreeMap.mem_toList_iff_getElem?_eq_some]
  constructor
  · rintro ⟨other, total, htotal, hused⟩
    split at hused
    · rename_i hover
      cases hused
      have hbytes : meter.bytes key = total := by rw [bytes, htotal]; rfl
      exact ⟨by rw [Meter.used, hbytes], hover⟩
    · cases hused
  · rintro ⟨rfl, hover⟩
    cases htotal : meter.counters[key]? with
    | none =>
      have hzero : meter.bytes key = 0 := by rw [bytes, htotal]; rfl
      rw [Meter.used, hzero, Nat.zero_sub] at hover
      exact absurd hover (Nat.not_lt_zero _)
    | some total =>
      have hbytes : meter.bytes key = total := by rw [bytes, htotal]; rfl
      refine ⟨key, total, htotal, ?_⟩
      rw [Meter.used, hbytes] at hover ⊢
      rw [if_pos hover]

end Meter

/-! ## What was really moved -/

/-- The bytes moved for a key since the window's base was read, those moved since its counter was
last dropped or the base read, and whether a counter that had counted something was dropped in
this window. -/
structure Tally (κ : Type) where
  moved : κ → Nat
  fresh : κ → Nat
  dropped : κ → Bool

namespace Tally

variable {κ : Type} [Ord κ] [TransOrd κ] [DecidableEq κ]

def empty : Tally κ := ⟨fun _ => 0, fun _ => 0, fun _ => false⟩

omit [Ord κ] [TransOrd κ] in
def charge (tally : Tally κ) (key : κ) (n : Nat) : Tally κ :=
  { tally with
    moved := Function.update tally.moved key (tally.moved key + n)
    fresh := Function.update tally.fresh key (tally.fresh key + n) }

/-- The tally beside a reap of the meter. -/
def reap (tally : Tally κ) (meter : Meter κ) (held : κ → Bool) : Tally κ :=
  { tally with
    fresh := fun key => if held key then tally.fresh key else 0
    dropped := fun key => tally.dropped key || (!held key && meter.bytes key != 0) }

/-- What a meter shows of a key: all that was moved in this window if no counter was dropped, and
without a base what was moved since the last drop. -/
structure Agrees (meter : Meter κ) (tally : Tally κ) : Prop where
  exact : ∀ key, tally.dropped key = false →
    meter.bytes key = meter.baseline key + tally.moved key
  fresh : ∀ key : κ, meter.base[key]? = none → meter.bytes key = tally.fresh key

omit [DecidableEq κ] in
theorem agrees_empty : Agrees (Meter.empty : Meter κ) Tally.empty where
  exact key _ := by simp [Meter.empty, Meter.bytes, Meter.baseline, Tally.empty]
  fresh key _ := by simp [Meter.empty, Meter.bytes, Tally.empty]

omit [DecidableEq κ] in
theorem agrees_roll (meter : Meter κ) : Agrees meter.roll Tally.empty where
  exact key _ := rfl
  fresh key hbase := by
    have hnone : meter.counters[key]? = none := hbase
    simp [Meter.roll, Meter.bytes, hnone, Tally.empty]

variable [LawfulEqOrd κ]

theorem bytes_counterFor (meter : Meter κ) (key other : κ) :
    (meter.counterFor key).bytes other = meter.bytes other := by
  unfold Meter.counterFor
  rw [Meter.bytes, getElem?_insert_self_or]
  by_cases h : key = other
  · rw [if_pos h, ← h, Option.getD_some]
  · rw [if_neg h]
    rfl

variable {meter : Meter κ} {tally : Tally κ}

theorem Agrees.counterFor (h : Agrees meter tally)
    (key : κ) : Agrees (meter.counterFor key) tally where
  exact other hkept := (bytes_counterFor meter key other).trans (h.exact other hkept)
  fresh other hbase := (bytes_counterFor meter key other).trans (h.fresh other hbase)

theorem bytes_charge {key : κ} (hheld : (meter.counters[key]?).isSome)
    {n : Nat} (hfits : meter.bytes key + n < 2 ^ 64) (other : κ) :
    (meter.charge key n).bytes other = meter.bytes other + if key = other then n else 0 := by
  obtain ⟨total, htotal⟩ := Option.isSome_iff_exists.mp hheld
  have hbytes : meter.bytes key = total := by rw [Meter.bytes, htotal]; rfl
  unfold Meter.charge
  rw [htotal]
  dsimp only
  rw [Meter.bytes, getElem?_insert_self_or]
  by_cases h : key = other
  · subst h
    rw [hbytes] at hfits
    rw [if_pos rfl, if_pos rfl, hbytes, Option.getD_some, Nat.mod_eq_of_lt hfits]
  · rw [if_neg h, if_neg h]
    rfl

theorem Agrees.charge (h : Agrees meter tally) {key : κ}
    (hheld : (meter.counters[key]?).isSome) {n : Nat} (hfits : meter.bytes key + n < 2 ^ 64) :
    Agrees (meter.charge key n) (tally.charge key n) := by
  have hbase : (meter.charge key n).base = meter.base := by
    unfold Meter.charge
    split <;> rfl
  constructor
  · intro other hkept
    have hexact := h.exact other hkept
    rw [bytes_charge hheld hfits, hexact, Meter.baseline, Meter.baseline, hbase, Tally.charge]
    by_cases hkey : key = other
    · subst hkey
      simp [Nat.add_assoc]
    · simp [hkey, Function.update_of_ne (Ne.symm hkey)]
  · intro other hnone
    rw [hbase] at hnone
    rw [bytes_charge hheld hfits, h.fresh other hnone, Tally.charge]
    by_cases hkey : key = other
    · subst hkey
      simp
    · simp [hkey, Function.update_of_ne (Ne.symm hkey)]

omit [DecidableEq κ] in
theorem bytes_reap (meter : Meter κ) (held : κ → Bool) (key : κ) :
    (meter.reap held).bytes key = if held key then meter.bytes key else 0 := by
  unfold Meter.reap
  rw [Meter.bytes, ExtTreeMap.getElem?_filter', Meter.bytes]
  cases meter.counters[key]? <;> cases held key <;> simp [Option.filter]

omit [DecidableEq κ] in
theorem Agrees.reap (h : Agrees meter tally)
    (held : κ → Bool) : Agrees (meter.reap held) (tally.reap meter held) := by
  constructor
  · intro key hkept
    rw [bytes_reap]
    obtain ⟨hbefore, hnonzero⟩ : tally.dropped key = false ∧
        (held key = false → meter.bytes key = 0) := by
      simpa [Tally.reap] using hkept
    have hexact := h.exact key hbefore
    cases hkey : held key with
    | true => simpa [Meter.reap, Meter.baseline, Tally.reap] using hexact
    | false =>
      -- A counter that counted nothing is the same dropped as kept.
      have hzero := hnonzero hkey
      rw [hzero] at hexact
      simpa [Meter.reap, Meter.baseline, Tally.reap] using hexact
  · intro key hnone
    rw [bytes_reap, h.fresh key hnone]
    rfl

end Tally

/-! ## Tracked keys -/

namespace Meter

variable {κ : Type} [Ord κ] [TransOrd κ] [LawfulEqOrd κ] [DecidableEq κ]

/-- The key has a counter. -/
def Tracks (meter : Meter κ) (key : κ) : Prop := (meter.counters[key]?).isSome

variable {meter : Meter κ} {key : κ}

theorem tracks_counterFor (meter : Meter κ) (key : κ) : (meter.counterFor key).Tracks key := by
  unfold Tracks counterFor
  rw [getElem?_insert_self_or, if_pos rfl]
  rfl

theorem Tracks.counterFor (h : meter.Tracks key) (other : κ) :
    (meter.counterFor other).Tracks key := by
  unfold Tracks Meter.counterFor
  rw [getElem?_insert_self_or]
  split
  · rfl
  · exact h

theorem Tracks.charge (h : meter.Tracks key) (other : κ) (n : Nat) :
    (meter.charge other n).Tracks key := by
  unfold Meter.charge
  split
  · exact h
  · unfold Tracks
    rw [getElem?_insert_self_or]
    split
    · rfl
    · exact h

omit [DecidableEq κ] in
theorem Tracks.reap (h : meter.Tracks key) {held : κ → Bool} (hheld : held key = true) :
    (meter.reap held).Tracks key := by
  obtain ⟨total, htotal⟩ := Option.isSome_iff_exists.mp h
  unfold Tracks Meter.reap
  rw [ExtTreeMap.getElem?_filter', htotal]
  simp [Option.filter, hheld]

end Meter

/-! ## The relay's meters -/

/-- A metered connection, live until its last substream is gone. -/
structure MeteredConn where
  peer : NetPeerId
  source : Option AddrPrefix
deriving DecidableEq

/-- The meters of a relay. -/
structure MeteredRelay where
  peers : Meter NetPeerId
  prefixes : Meter AddrPrefix
  total : Nat
  conns : ExtTreeMap ConnectionId MeteredConn

/-- One act on the meters under their lock. -/
inductive MeterAct where
  | meter (conn : ConnectionId) (peer : NetPeerId) (source : Option AddrPrefix)
  | disconnect (conn : ConnectionId)
  | move (conn : ConnectionId) (n : Nat)
  | rollPeers
  | rollPrefixes
  | reapPeers
  | reapPrefixes
deriving DecidableEq

namespace MeteredRelay

def empty : MeteredRelay := ⟨.empty, .empty, 0, ∅⟩

/-- {lit}`Arc::strong_count(c) > 1` for a peer's counter. -/
def holdsPeer (relay : MeteredRelay) (peer : NetPeerId) : Bool :=
  relay.conns.toList.any fun entry => entry.2.peer = peer

/-- {lit}`Arc::strong_count(c) > 1` for a prefix's counter. -/
def holdsPrefix (relay : MeteredRelay) (source : AddrPrefix) : Bool :=
  relay.conns.toList.any fun entry => entry.2.source = some source

def act (relay : MeteredRelay) : MeterAct → MeteredRelay
  | .meter conn peer source =>
    { relay with
      peers := relay.peers.counterFor peer
      prefixes := source.elim relay.prefixes relay.prefixes.counterFor
      conns := relay.conns.insert conn ⟨peer, source⟩ }
  | .disconnect conn => { relay with conns := relay.conns.erase conn }
  | .move conn n =>
    match relay.conns[conn]? with
    | none => relay
    | some held =>
      { relay with
        peers := relay.peers.charge held.peer n
        prefixes := held.source.elim relay.prefixes fun source => relay.prefixes.charge source n
        total := (relay.total + n) % 2 ^ 64 }
  | .rollPeers => { relay with peers := relay.peers.roll }
  | .rollPrefixes => { relay with prefixes := relay.prefixes.roll }
  | .reapPeers => { relay with peers := relay.peers.reap relay.holdsPeer }
  | .reapPrefixes => { relay with prefixes := relay.prefixes.reap relay.holdsPrefix }

end MeteredRelay

/-! ## The sweep -/

/-- The budgets of a relay. -/
structure RelayLimits where
  budgetWindowSecs : Nat := 60 * 60
  peerBudgetBytes : Nat := 1024 * 1024 * 1024
  nodeBudgetBytes : Nat := 8 * 1024 * 1024 * 1024
  prefixBudgetBytes : Nat := 2 * 1024 * 1024 * 1024
  sweepSecs : Nat := 10
  rateWindowSecs : Nat := 60
  saturateAtPercent : Nat := 100
  desaturateAtPercent : Nat := 75
  maxTrackedPeers : Nat := 8192

def RelayLimits.budgetBytesPerSec (limits : RelayLimits) : Nat :=
  limits.nodeBudgetBytes / max limits.budgetWindowSecs 1

/-- A short ring of per-sweep byte deltas. -/
structure RateRing where
  samples : List Nat
  capacity : Nat
  sweepSecs : Nat
  lastTotal : Nat

namespace RateRing

def new (rateWindowSecs sweepSecs total : Nat) : RateRing :=
  let sweepSecs := max sweepSecs 1
  ⟨[], max (rateWindowSecs / sweepSecs) 1, sweepSecs, total⟩

/-- The bytes since the last sweep; the oldest sample makes room. -/
def push (ring : RateRing) (total : Nat) : RateRing :=
  let delta := total - ring.lastTotal
  let samples := if ring.samples.length = ring.capacity then ring.samples.tail else ring.samples
  { ring with samples := samples ++ [delta], lastTotal := total }

/-- The rate over the ring. -/
def bytesPerSec (ring : RateRing) : Nat :=
  if ring.samples = [] then 0
  else min (ring.samples.sum / max (ring.samples.length * ring.sweepSecs) 1) usizeMax

end RateRing

/-- The state the sweep keeps between passes; the bases stand with their meters. -/
structure ShedState where
  windowStartMs : Nat
  lastSweepMs : Nat
  rate : RateRing

/-- A relay between its sweeps. -/
structure RelayNode where
  relay : MeteredRelay
  shed : ShedState
  saturated : Bool

namespace RelayNode

/-- The window has run its length. -/
def Rolls (limits : RelayLimits) (shed : ShedState) (nowMs : Nat) : Prop :=
  saturatingMul limits.budgetWindowSecs 1000 ≤ nowMs - shed.windowStartMs

instance (limits : RelayLimits) (shed : ShedState) (nowMs : Nat) :
    Decidable (Rolls limits shed nowMs) :=
  inferInstanceAs (Decidable (_ ≤ _))

/-- What a sweep does to the meters: a roll and a reap at the end of a window, and in between a
reap when more peers are tracked than the soft cap. -/
def sweepActs (limits : RelayLimits) (node : RelayNode) (nowMs : Nat) : List MeterAct :=
  if Rolls limits node.shed nowMs then [.rollPeers, .rollPrefixes, .reapPeers, .reapPrefixes]
  else if limits.maxTrackedPeers < node.relay.peers.counters.size then [.reapPeers, .reapPrefixes]
  else []

/-- Recompute the saturation flag from the rolling rate, with hysteresis. -/
def updateSaturation (limits : RelayLimits) (node : RelayNode) : RelayNode :=
  let ring := node.shed.rate.push node.relay.total
  let onRate := limits.budgetBytesPerSec * limits.saturateAtPercent / 100
  let offRate := limits.budgetBytesPerSec * limits.desaturateAtPercent / 100
  { node with
    shed := { node.shed with rate := ring }
    saturated := if node.saturated then offRate ≤ ring.bytesPerSec
      else onRate < ring.bytesPerSec }

/-- While saturated a source network is held to what one peer gets. -/
def prefixBudget (limits : RelayLimits) (node : RelayNode) : Nat :=
  if node.saturated then min limits.prefixBudgetBytes limits.peerBudgetBytes
  else limits.prefixBudgetBytes

/-- The peers and prefixes a sweep finds over budget. -/
structure Report where
  peers : List (NetPeerId × Nat)
  prefixes : List (AddrPrefix × Nat)

/-- One pass of the load-shed policy, if it is due. -/
def sweep (limits : RelayLimits) (node : RelayNode) (nowMs : Nat) : RelayNode × Option Report :=
  if nowMs - node.shed.lastSweepMs < saturatingMul limits.sweepSecs 1000 then (node, none)
  else
    let windowStartMs :=
      if Rolls limits node.shed nowMs then nowMs else node.shed.windowStartMs
    let swept : RelayNode :=
      { node with
        relay := run MeteredRelay.act node.relay (node.sweepActs limits nowMs)
        shed := { node.shed with windowStartMs := windowStartMs, lastSweepMs := nowMs } }
    let swept := swept.updateSaturation limits
    (swept, some
      ⟨swept.relay.peers.overBudget limits.peerBudgetBytes,
        swept.relay.prefixes.overBudget (swept.prefixBudget limits)⟩)

end RelayNode

/-! ## Runs -/

/-- The meters and the tally of both. -/
structure MeteredRun where
  relay : MeteredRelay
  peers : Tally NetPeerId
  prefixes : Tally AddrPrefix

namespace MeteredRun

def start : MeteredRun := ⟨.empty, .empty, .empty⟩

def act (state : MeteredRun) (event : MeterAct) : MeteredRun :=
  let relay := state.relay.act event
  match event with
  | .meter _ _ _ | .disconnect _ => { state with relay := relay }
  | .move conn n =>
    match state.relay.conns[conn]? with
    | none => { state with relay := relay }
    | some held =>
      { relay := relay
        peers := state.peers.charge held.peer n
        prefixes := held.source.elim state.prefixes fun source =>
          state.prefixes.charge source n }
  | .rollPeers => { state with relay := relay, peers := .empty }
  | .rollPrefixes => { state with relay := relay, prefixes := .empty }
  | .reapPeers =>
    { state with
      relay := relay
      peers := state.peers.reap state.relay.peers state.relay.holdsPeer }
  | .reapPrefixes =>
    { state with
      relay := relay
      prefixes := state.prefixes.reap state.relay.prefixes state.relay.holdsPrefix }

theorem relay_act (state : MeteredRun) (event : MeterAct) :
    (state.act event).relay = state.relay.act event := by
  cases event with
  | move conn n =>
    unfold act
    dsimp only
    split <;> rfl
  | _ => rfl

/-- A connection is metered once and moves bytes while it is live, and no counter reaches
{lit}`2 ^ 64`. -/
def Allowed (state : MeteredRun) : MeterAct → Prop
  | .meter conn _ _ => state.relay.conns[conn]? = none
  | .move conn n =>
    ∀ held ∈ state.relay.conns[conn]?, state.relay.peers.bytes held.peer + n < 2 ^ 64 ∧
      ∀ source ∈ held.source, state.relay.prefixes.bytes source + n < 2 ^ 64
  | _ => True

/-- Both meters agree with their tallies, and a live connection's counters are in the maps. -/
structure Sound (state : MeteredRun) : Prop where
  peers : Tally.Agrees state.relay.peers state.peers
  prefixes : Tally.Agrees state.relay.prefixes state.prefixes
  peer : ∀ (conn : ConnectionId) (held : MeteredConn), state.relay.conns[conn]? = some held →
    state.relay.peers.Tracks held.peer
  source : ∀ (conn : ConnectionId) (held : MeteredConn) (source : AddrPrefix),
    state.relay.conns[conn]? = some held → held.source = some source →
    state.relay.prefixes.Tracks source

theorem sound_start : start.Sound where
  peers := Tally.agrees_empty
  prefixes := Tally.agrees_empty
  peer conn held h := by simp [start, MeteredRelay.empty] at h
  source conn held source h := by simp [start, MeteredRelay.empty] at h

theorem Sound.meter {state : MeteredRun} (h : state.Sound) (conn : ConnectionId)
    (peer : NetPeerId) (source : Option AddrPrefix) :
    (state.act (.meter conn peer source)).Sound where
  peers := h.peers.counterFor peer
  prefixes := by
    cases source with
    | none => exact h.prefixes
    | some source => exact h.prefixes.counterFor source
  peer other held hother := by
    unfold act MeteredRelay.act at hother ⊢
    dsimp only at hother ⊢
    rcases of_getElem?_insert hother with ⟨-, rfl⟩ | hother
    · exact Meter.tracks_counterFor _ _
    · exact (h.peer other held hother).counterFor _
  source other held found hother hsource := by
    unfold act MeteredRelay.act at hother ⊢
    dsimp only at hother ⊢
    rcases of_getElem?_insert hother with ⟨-, rfl⟩ | hother
    · cases hsource
      exact Meter.tracks_counterFor _ _
    · have hold := h.source other held found hother hsource
      cases source with
      | none => exact hold
      | some new => exact hold.counterFor _

variable {conn : ConnectionId}

theorem Sound.move {state : MeteredRun} (h : state.Sound) {n : Nat}
    (hallowed : state.Allowed (.move conn n)) : (state.act (.move conn n)).Sound := by
  unfold act MeteredRelay.act
  dsimp only
  cases hconn : state.relay.conns[conn]? with
  | none => exact ⟨h.peers, h.prefixes, h.peer, h.source⟩
  | some held =>
    dsimp only
    obtain ⟨hpeer, hsource⟩ := hallowed held hconn
    constructor
    · exact h.peers.charge (h.peer conn held hconn) hpeer
    · cases hfound : held.source with
      | none => exact h.prefixes
      | some source =>
        exact h.prefixes.charge (h.source conn held source hconn hfound) (hsource source hfound)
    · exact fun other live hother => (h.peer other live hother).charge _ _
    · intro other live found hother hfound
      have hold := h.source other live found hother hfound
      cases held.source with
      | none => exact hold
      | some source => exact hold.charge _ _

variable {held : MeteredConn}

theorem holdsPeer_of_live {relay : MeteredRelay}
    (h : relay.conns[conn]? = some held) : relay.holdsPeer held.peer = true := by
  unfold MeteredRelay.holdsPeer
  rw [List.any_eq_true]
  exact ⟨(conn, held), ExtTreeMap.mem_toList_iff_getElem?_eq_some.mpr h, by simp⟩

theorem holdsPrefix_of_live {relay : MeteredRelay}
    (h : relay.conns[conn]? = some held) {source : AddrPrefix}
    (hsource : held.source = some source) : relay.holdsPrefix source = true := by
  unfold MeteredRelay.holdsPrefix
  rw [List.any_eq_true]
  exact ⟨(conn, held), ExtTreeMap.mem_toList_iff_getElem?_eq_some.mpr h, by simp [hsource]⟩

/-- One act keeps meters and tallies in agreement. -/
theorem Sound.act (state : MeteredRun) (event : MeterAct) (h : state.Sound)
    (hallowed : state.Allowed event) : (state.act event).Sound := by
  cases event with
  | meter conn peer source => exact h.meter conn peer source
  | disconnect conn =>
    have hlive : ∀ {other : ConnectionId} {held : MeteredConn},
        (state.relay.conns.erase conn)[other]? = some held →
        state.relay.conns[other]? = some held := by
      intro other held hother
      rw [ExtTreeMap.getElem?_erase] at hother
      split at hother
      · cases hother
      · exact hother
    exact ⟨h.peers, h.prefixes, fun other held hother => h.peer other held (hlive hother),
      fun other held source hother => h.source other held source (hlive hother)⟩
  | move conn n => exact h.move hallowed
  | rollPeers => exact ⟨Tally.agrees_roll _, h.prefixes, h.peer, h.source⟩
  | rollPrefixes => exact ⟨h.peers, Tally.agrees_roll _, h.peer, h.source⟩
  | reapPeers =>
    refine ⟨h.peers.reap _, h.prefixes, ?_, h.source⟩
    exact fun conn held hconn => (h.peer conn held hconn).reap (holdsPeer_of_live hconn)
  | reapPrefixes =>
    refine ⟨h.peers, h.prefixes.reap _, h.peer, ?_⟩
    intro conn held source hconn hsource
    exact (h.source conn held source hconn hsource).reap (holdsPrefix_of_live hconn hsource)

theorem run_sound {acts : List MeterAct} (hobeys : Obeys act Allowed start acts) :
    (run act start acts).Sound :=
  hobeys.run_induction Sound sound_start Sound.act

/-! ## Usage -/

section Usage

variable {κ : Type} [Ord κ] [TransOrd κ] {meter : Meter κ} {tally : Tally κ}

theorem used_eq_moved (h : Tally.Agrees meter tally) {key : κ}
    (hkept : tally.dropped key = false) : meter.used key = tally.moved key := by
  rw [Meter.used, h.exact key hkept]
  omega

theorem used_eq_fresh (h : Tally.Agrees meter tally) {key : κ} (hbase : meter.base[key]? = none) :
    meter.used key = tally.fresh key := by
  rw [Meter.used, h.fresh key hbase, Meter.baseline, hbase]
  rfl

theorem reported [LawfulEqOrd κ] (h : Tally.Agrees meter tally) {key : κ}
    (hkept : tally.dropped key = false) {budget : Nat} (hover : budget < tally.moved key) :
    (key, tally.moved key) ∈ meter.overBudget budget :=
  Meter.mem_overBudget.mpr ⟨(used_eq_moved h hkept).symm, hover⟩

end Usage

theorem run_relay (state : MeteredRun) (acts : List MeterAct) :
    (run act state acts).relay = run MeteredRelay.act state.relay acts := by
  induction acts generalizing state with
  | nil => rfl
  | cons event later ih =>
    have hstep := ih (state.act event)
    rw [relay_act] at hstep
    exact hstep

theorem prefixBudget_le (limits : RelayLimits) (node : RelayNode) :
    node.prefixBudget limits ≤ limits.prefixBudgetBytes := by
  unfold RelayNode.prefixBudget
  split
  · exact Nat.min_le_left _ _
  · exact Nat.le_refl _

/-- What a sweep reports is read off the meters its acts leave. -/
theorem sweep_spec {limits : RelayLimits} {node next : RelayNode} {nowMs : Nat}
    {report : RelayNode.Report} (h : node.sweep limits nowMs = (next, some report)) :
    report.peers = (run MeteredRelay.act node.relay (node.sweepActs limits nowMs)).peers.overBudget
        limits.peerBudgetBytes ∧
      ∃ budget ≤ limits.prefixBudgetBytes, report.prefixes =
        (run MeteredRelay.act node.relay (node.sweepActs limits nowMs)).prefixes.overBudget
          budget := by
  unfold RelayNode.sweep at h
  split at h
  · cases h
  · cases h
    exact ⟨rfl, _, prefixBudget_le _ _, rfl⟩

theorem obeys_sweepActs (limits : RelayLimits) (node : RelayNode) (nowMs : Nat)
    (state : MeteredRun) : Obeys act Allowed state (node.sweepActs limits nowMs) := by
  unfold RelayNode.sweepActs
  split
  · exact ⟨trivial, trivial, trivial, trivial, trivial⟩
  · split
    · exact ⟨trivial, trivial, trivial⟩
    · trivial

/-- A reap keeps the counters of a live connection. -/
theorem dropped_reap_of_live {state : MeteredRun} (h : state.relay.conns[conn]? = some held) :
    (state.act .reapPeers).peers.dropped held.peer = state.peers.dropped held.peer ∧
      ∀ source ∈ held.source, (state.act .reapPrefixes).prefixes.dropped source
        = state.prefixes.dropped source := by
  constructor
  · simp [act, Tally.reap, holdsPeer_of_live h]
  · intro source hsource
    simp [act, Tally.reap, holdsPrefix_of_live h hsource]

/-- In every sequence of connections, disconnections, moved bytes, rolls and reaps the usage of a
peer or prefix is what was moved on its behalf since the window's base was read, unless a counter
of the key that had counted something was dropped in this window. A reap drops no counter of a
live connection. A peer without a base is measured from its last drop. A sweep reports every peer
and prefix that is over its budget and has not lost a counter. -/
theorem usage_exact_unless_dropped (acts : List MeterAct)
    (hobeys : Obeys act Allowed start acts) :
    let state := run act start acts
    (∀ peer, state.peers.dropped peer = false →
        state.relay.peers.used peer = state.peers.moved peer) ∧
      (∀ source, state.prefixes.dropped source = false →
        state.relay.prefixes.used source = state.prefixes.moved source) ∧
      (∀ peer : NetPeerId, state.relay.peers.base[peer]? = none →
        state.relay.peers.used peer = state.peers.fresh peer) ∧
      (∀ (conn : ConnectionId) (held : MeteredConn), state.relay.conns[conn]? = some held →
        (state.act .reapPeers).peers.dropped held.peer = state.peers.dropped held.peer ∧
          ∀ source ∈ held.source, (state.act .reapPrefixes).prefixes.dropped source
            = state.prefixes.dropped source) ∧
      (∀ (limits : RelayLimits) (node next : RelayNode) (nowMs : Nat)
          (report : RelayNode.Report), node.relay = state.relay →
        node.sweep limits nowMs = (next, some report) →
        let swept := run act state (node.sweepActs limits nowMs)
        (∀ peer, swept.peers.dropped peer = false →
          limits.peerBudgetBytes < swept.peers.moved peer →
          (peer, swept.peers.moved peer) ∈ report.peers) ∧
        (∀ source, swept.prefixes.dropped source = false →
          limits.prefixBudgetBytes < swept.prefixes.moved source →
          (source, swept.prefixes.moved source) ∈ report.prefixes)) := by
  intro state
  have hsound : state.Sound := run_sound hobeys
  refine ⟨fun peer => used_eq_moved hsound.peers, fun source => used_eq_moved hsound.prefixes,
    fun peer => used_eq_fresh hsound.peers, fun conn held => dropped_reap_of_live, ?_⟩
  intro limits node next nowMs report hrelay hsweep swept
  have hswept : swept.Sound := by
    have hall := (obeys_append acts (node.sweepActs limits nowMs)).mpr
      ⟨hobeys, obeys_sweepActs limits node nowMs state⟩
    have hrun := run_sound hall
    rw [run_append] at hrun
    exact hrun
  have hmeters : swept.relay = run MeteredRelay.act node.relay (node.sweepActs limits nowMs) := by
    rw [hrelay]
    exact run_relay state _
  obtain ⟨hpeers, budget, hbudget, hprefixes⟩ := sweep_spec hsweep
  rw [← hmeters] at hpeers hprefixes
  constructor
  · intro peer hkept hover
    rw [hpeers]
    exact reported hswept.peers hkept hover
  · intro source hkept hover
    rw [hprefixes]
    exact reported hswept.prefixes hkept (hbudget.trans_lt hover)

/-- A connection that moves bytes. -/
theorem usage_exact_unless_dropped_one_connection :
    let acts : List MeterAct :=
      [.rollPeers, .rollPrefixes, .meter 0 [1] (some (.v4 9)), .move 0 100]
    Obeys act Allowed start acts ∧
      (run act start acts).relay.prefixes.used (.v4 9) = 100 := by
  have hobeys : Obeys act Allowed start
      [.rollPeers, .rollPrefixes, .meter 0 [1] (some (.v4 9)), .move 0 100] := by
    refine ⟨trivial, trivial, ?_, ?_, trivial⟩
    · change _ = none
      decide +kernel
    · intro held hheld
      have hconn : held = ⟨[1], some (.v4 9)⟩ := by
        have hget : (((start.act .rollPeers).act .rollPrefixes).act
            (.meter 0 [1] (some (.v4 9)))).relay.conns[(0 : ConnectionId)]?
              = some ⟨[1], some (.v4 9)⟩ := by decide +kernel
        rw [Option.mem_def, hget] at hheld
        exact (Option.some.inj hheld).symm
      subst hconn
      refine ⟨by decide +kernel, fun source hsource => ?_⟩
      cases hsource
      decide +kernel
  refine ⟨hobeys, ?_⟩
  rw [(usage_exact_unless_dropped _ hobeys).2.1 (.v4 9) (by decide +kernel)]
  decide +kernel

/-- Over the soft cap a sweep drops the counter of a disconnected peer in the middle of a window,
and the peer starts again from zero. -/
theorem soft_cap_reap_resets_usage :
    let limits : RelayLimits := { maxTrackedPeers := 1 }
    let before := run act start
      [.rollPeers, .rollPrefixes, .meter 0 [1] none, .meter 1 [2] none, .move 0 100,
        .disconnect 0]
    let node : RelayNode := ⟨before.relay, ⟨0, 0, RateRing.new 60 10 0⟩, false⟩
    let after := run act before
      (node.sweepActs limits 20000 ++ [.meter 2 [1] none, .move 2 1])
    after.relay.peers.used [1] = 1 ∧ after.peers.moved [1] = 101 := by
  decide +kernel

end MeteredRun

end Net
end Mewtual
