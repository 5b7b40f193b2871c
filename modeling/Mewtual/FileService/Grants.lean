import Mewtual.FileService.Admission

/-!
# Grants execute at most once

Runs of the admission ledger, with the commits it has accepted. A replay row lives on the
monotonic clock and freshness is judged on the effective wall clock; the effective wall clock
advances at least as fast, so a grant whose row has expired is no longer fresh.

Main results:

- Theorem {lit}`Admission.grants_execute_once`: what holds after every run.
-/

namespace Mewtual

namespace Admission

open Std

variable [Crypto] [Blake3]

/-! ## Calls -/

/-- A call on one runtime. -/
inductive Action where
  | admitIngress (scope : ServiceScope) (sender : ServicePeer) (role : Role) (frame : Bytes)
  | verify (ticket : IngressTicket) (frame : Bytes)
  | preflight (proof : VerifiedGrant)
  | commit (proof : VerifiedGrant)
  | requestTimeMs

/-- A call with the clock reading it would sample. -/
structure Call where
  action : Action
  clock : Reading

inductive Answer where
  | ticket (ticket : IngressTicket)
  | grant (proof : VerifiedGrant)
  | time (wall : Nat)
  | done

/-- A commit that the ledger accepted, at the time it observed. -/
structure Commit where
  proof : VerifiedGrant
  time : Time

/-- The result of a call. -/
def State.call (self : Nat) (state : State) (call : Call) :
    Except AdmissionError Answer × State :=
  match call.action with
  | .admitIngress scope sender role frame =>
    (state.admitIngress self call.clock scope sender role frame).map (Except.map .ticket) id
  | .verify ticket frame =>
    (state.verify self call.clock ticket frame).map (Except.map .grant) id
  | .preflight proof =>
    (state.preflight self call.clock proof).map (Except.map fun _ => .done) id
  | .commit proof => (state.commit self call.clock proof).map (Except.map fun _ => .done) id
  | .requestTimeMs => (state.requestTimeMs call.clock).map (Except.map .time) id

/-- The commit a call has published, if any. -/
def Call.committed (call : Call) (answer : Except AdmissionError Answer) (next : State) :
    Option Commit :=
  match call.action, answer, next.time.previous with
  | .commit proof, .ok _, some now => some ⟨proof, now⟩
  | _, _, _ => none

/-- Everything a call can do to the ledger, with the commit it publishes. -/
inductive Moves (self : Nat) (state : State) : State → Option Commit → Prop where
  | stamped {time : TimeFloor} (hprevious : time.previous = state.time.previous) :
      Moves self state { state with time := time } none
  | observed {now : Time} {base : State} (hbase : state.Observed now base) :
      Moves self state base none
  | ingress {now : Time} {base : State} {device : DeviceKey} {group : Group}
      (hbase : state.Observed now base) (hdevice : base.ingressDevice.Allows device 1)
      (hgroup : base.ingressGroup.Allows group 1) (hprocess : base.ingressProcess.Allows () 1)
      (expires : Nat) :
      Moves self state
        { base with
          ingressDevice := base.ingressDevice.charge device 1 expires
          ingressGroup := base.ingressGroup.charge group 1 expires
          ingressProcess := base.ingressProcess.charge () 1 expires } none
  | committed {now : Time} {base : State} {proof : VerifiedGrant}
      (hbase : state.Observed now base) (hchecked : base.Checked self proof now) :
      Moves self state (base.publish proof now) (some ⟨proof, now⟩)

/-- A call that fails publishes nothing: it leaves the rows as they are, or drops expired ones. -/
inductive Refused (state : State) : State → Prop where
  | stamped (time : TimeFloor) : Refused state { state with time := time }
  | observed {now : Time} {base : State} (hbase : state.Observed now base) : Refused state base

/-- A call that publishes nothing, whether or not it fails. -/
def Quiet (self : Nat) (state next : State) : Prop :=
  Moves self state next none ∧ Refused state next

section

variable (self : Nat) (state : State) (clock : Reading)

theorem quiet_refl : Quiet self state state :=
  ⟨.stamped rfl, .stamped state.time⟩

theorem observe_quiet :
    Quiet self state (state.observe clock).2 := by
  rcases state.observe_spec clock with ⟨now, base, hobserve, hbase⟩ | ⟨error, time, hobserve, hsame⟩
  · rw [hobserve]
    exact ⟨.observed hbase, .observed hbase⟩
  · rw [hobserve]
    exact ⟨.stamped hsame, .stamped time⟩

theorem admitIngress_moves (scope : ServiceScope)
    (sender : ServicePeer) (role : Role) (frame : Bytes) :
    Moves self state (state.admitIngress self clock scope sender role frame).2 none ∧
      ∀ error, (state.admitIngress self clock scope sender role frame).1 = .error error →
        Refused state (state.admitIngress self clock scope sender role frame).2 := by
  unfold State.admitIngress
  split
  · exact ⟨.stamped rfl, fun _ _ => .stamped state.time⟩
  split
  · exact ⟨.stamped rfl, fun _ _ => .stamped state.time⟩
  rcases state.observe_spec clock with ⟨now, base, hobserve, hbase⟩ | ⟨error, time, hobserve, hsame⟩
  · rw [hobserve]
    dsimp only
    split
    · split <;> rename_i hbusy
      · exact ⟨.observed hbase, fun _ _ => .observed hbase⟩
      · simp only [not_or, not_not] at hbusy
        exact ⟨.ingress hbase hbusy.1 hbusy.2.1 hbusy.2.2 _, fun _ herror => by cases herror⟩
    · exact ⟨.observed hbase, fun _ _ => .observed hbase⟩
  · rw [hobserve]
    exact ⟨.stamped hsame, fun _ _ => .stamped time⟩

theorem verify_quiet (ticket : IngressTicket)
    (frame : Bytes) : Quiet self state (state.verify self clock ticket frame).2 := by
  have hquiet := observe_quiet self state clock
  unfold State.verify
  split
  · exact quiet_refl self state
  split
  · exact quiet_refl self state
  split
  · exact quiet_refl self state
  split <;> rename_i hobserve <;> rw [hobserve] at hquiet <;> exact hquiet

theorem preflight_quiet (proof : VerifiedGrant) :
    Quiet self state (state.preflight self clock proof).2 := by
  have hquiet := observe_quiet self state clock
  unfold State.preflight
  split <;> rename_i hobserve <;> rw [hobserve] at hquiet <;> exact hquiet

theorem requestTimeMs_quiet :
    Quiet self state (state.requestTimeMs clock).2 := by
  have hquiet := observe_quiet self state clock
  unfold State.requestTimeMs
  split <;> rename_i hobserve <;> rw [hobserve] at hquiet <;> exact hquiet

/-- A commit is refused and publishes nothing, or it publishes at the observed time. -/
theorem commit_moves (proof : VerifiedGrant) :
    (∃ error, (state.commit self clock proof).1 = .error error ∧
        Moves self state (state.commit self clock proof).2 none ∧
        Refused state (state.commit self clock proof).2) ∨
      ∃ now, (state.commit self clock proof).1 = .ok () ∧
        (state.commit self clock proof).2.time.previous = some now ∧
        Moves self state (state.commit self clock proof).2 (some ⟨proof, now⟩) := by
  unfold State.commit
  rcases state.observe_spec clock with ⟨now, base, hobserve, hbase⟩ | ⟨error, time, hobserve, hsame⟩
  · rw [hobserve]
    dsimp only
    cases hcheck : base.check self proof now with
    | error error => exact .inl ⟨error, rfl, .observed hbase, .observed hbase⟩
    | ok done =>
      exact .inr ⟨now, rfl, hbase.previous, .committed hbase (State.check_spec hcheck)⟩
  · rw [hobserve]
    exact .inl ⟨error, rfl, .stamped hsame, .stamped time⟩

/-- Everything a call does, and that a failed call publishes nothing. -/
theorem call_moves (call : Call) :
    Moves self state (state.call self call).2
        (call.committed (state.call self call).1 (state.call self call).2) ∧
      ∀ error, (state.call self call).1 = .error error →
        Refused state (state.call self call).2 := by
  rcases call with ⟨action, clock⟩
  cases action with
  | admitIngress scope sender role frame =>
    rcases admitIngress_moves self state clock scope sender role frame with ⟨hmoves, hrefused⟩
    refine ⟨hmoves, ?_⟩
    intro error herror
    cases hanswer : (state.admitIngress self clock scope sender role frame).1 with
    | error found => exact hrefused found hanswer
    | ok ticket =>
      simp [State.call, hanswer, Except.map] at herror
  | verify ticket frame =>
    have hquiet := verify_quiet self state clock ticket frame
    exact ⟨hquiet.1, fun _ _ => hquiet.2⟩
  | preflight proof =>
    have hquiet := preflight_quiet self state clock proof
    exact ⟨hquiet.1, fun _ _ => hquiet.2⟩
  | requestTimeMs =>
    have hquiet := requestTimeMs_quiet self state clock
    exact ⟨hquiet.1, fun _ _ => hquiet.2⟩
  | commit proof =>
    rcases commit_moves self state clock proof with
      ⟨error, herror, hmoves, hrefused⟩ | ⟨now, hok, hprevious, hmoves⟩
    · refine ⟨?_, fun _ _ => hrefused⟩
      simp only [State.call, Call.committed, Prod.map_fst, Prod.map_snd, id_eq, herror, Except.map]
      exact hmoves
    · constructor
      · simp only [State.call, Call.committed, Prod.map_fst, Prod.map_snd, id_eq, hok, Except.map,
          hprevious]
        exact hmoves
      · intro error herror
        simp [State.call, hok, Except.map] at herror

end

/-! ## The ledger of a run -/

/-- The state of a runtime with the commits it has accepted. -/
structure Ledger where
  state : State
  commits : List Commit

namespace Ledger

def new : Ledger := ⟨State.new, []⟩

def step (self : Nat) (ledger : Ledger) (call : Call) : Ledger :=
  let result := ledger.state.call self call
  ⟨result.2, ledger.commits ++ (call.committed result.1 result.2).toList⟩

end Ledger

/-- The monotonic time of the last observation. -/
def State.nowMono (state : State) : Nat := (state.time.previous.map Time.mono).getD 0

/-- What the selected commits were charged. -/
def chargesBy (touches : VerifiedGrant → Prop) [DecidablePred touches] (commits : List Commit) :
    Charges :=
  (commits.filter fun commit => touches commit.proof).map fun commit =>
    (commit.time.mono, commit.proof.workBytes)

omit [Blake3] in
theorem chargesBy_concat (touches : VerifiedGrant → Prop) [DecidablePred touches]
    (commits : List Commit) (commit : Commit) :
    chargesBy touches (commits ++ [commit])
      = chargesBy touches commits
        ++ if touches commit.proof then [(commit.time.mono, commit.proof.workBytes)] else [] := by
  by_cases h : touches commit.proof
  · simp [chargesBy, h]
  · simp [chargesBy, h]

section Tracks

variable {κ : Type} [Ord κ] [TransOrd κ]

/-- Every row of the table meters the commits that touch its key. -/
def Tracks (windows : Windows κ) (touches : κ → VerifiedGrant → Prop)
    [∀ key, DecidablePred (touches key)] (commits : List Commit) (now : Nat) : Prop :=
  ∀ key, Metered windowMs windows.limit (chargesBy (touches key) commits) windows.rows[key]? now

variable {windows : Windows κ} {touches : κ → VerifiedGrant → Prop}
  [∀ key, DecidablePred (touches key)] {commits : List Commit} {now : Nat}

omit [Blake3] in
theorem Tracks.prune (h : Tracks windows touches commits now) {later : Nat}
    (hlater : now ≤ later) : Tracks (windows.prune later) touches commits later := by
  intro key
  rw [Windows.rows_prune, Windows.prune_limit]
  exact (h key).expire hlater

omit [Blake3] in
/-- A commit that charges exactly the rows it touches is metered by all rows. -/
theorem Tracks.commit {next : Windows κ} {commit : Commit}
    (h : Tracks windows touches commits commit.time.mono)
    (hlimit : next.limit = windows.limit)
    (hlive : ∀ (key : κ) (row : Window), windows.rows[key]? = some row →
      commit.time.mono < row.expires)
    (hallows : ∀ key, touches key commit.proof → windows.Allows key commit.proof.workBytes)
    (hrows : ∀ key, next.rows[key]? = if touches key commit.proof then
      some (Windows.charged windows.rows[key]? commit.proof.workBytes
        (commit.time.mono + windowMs)) else windows.rows[key]?) :
    Tracks next touches (commits ++ [commit]) commit.time.mono := by
  intro key
  rw [hlimit, hrows key, chargesBy_concat]
  by_cases htouches : touches key commit.proof
  · rw [if_pos htouches, if_pos htouches]
    exact (h key).charge (by decide) (hlive key) (hallows key htouches).used_le
  · rw [if_neg htouches, if_neg htouches, List.append_nil]
    exact h key

end Tracks

def touchesDevice (key : DeviceKey) (proof : VerifiedGrant) : Prop := key ∈ proof.deviceKeys

instance (key : DeviceKey) : DecidablePred (touchesDevice key) :=
  fun proof => inferInstanceAs (Decidable (key ∈ proof.deviceKeys))

def touchesGroup (group : Group) (proof : VerifiedGrant) : Prop := proof.ticket.group = group

instance (group : Group) : DecidablePred (touchesGroup group) :=
  fun proof => inferInstanceAs (Decidable (proof.ticket.group = group))

def touchesProcess (_ : Unit) (_ : VerifiedGrant) : Prop := True

instance (key : Unit) : DecidablePred (touchesProcess key) :=
  fun _ => inferInstanceAs (Decidable True)

/-- The caps and limits that the tables were created with. -/
structure State.Shaped (state : State) : Prop where
  ingressDevice : (state.ingressDevice.cap, state.ingressDevice.limit) = (maxDevices, 8)
  ingressGroup : (state.ingressGroup.cap, state.ingressGroup.limit) = (maxGroups, 16)
  ingressProcess : (state.ingressProcess.cap, state.ingressProcess.limit) = (1, 32)
  workDevice : (state.workDevice.cap, state.workDevice.limit) = (maxDevices, 64 * mib)
  workGroup : (state.workGroup.cap, state.workGroup.limit) = (maxGroups, 128 * mib)
  workProcess : (state.workProcess.cap, state.workProcess.limit) = (1, 256 * mib)

/-- All tables are within their caps and limits. -/
structure State.Bounded (state : State) : Prop where
  ingressDevice : state.ingressDevice.Bounded
  ingressGroup : state.ingressGroup.Bounded
  ingressProcess : state.ingressProcess.Bounded
  workDevice : state.workDevice.Bounded
  workGroup : state.workGroup.Bounded
  workProcess : state.workProcess.Bounded
  replay : state.replay.size ≤ maxReplayProcess
  group : ∀ group, (state.groupReplay group).size ≤ maxReplayGroup

/-- One signed grant for one local device in one role. -/
def SameGrant (left right : Commit) : Prop :=
  left.proof.originalFrame = right.proof.originalFrame
    ∧ left.proof.ticket.localPeer.device = right.proof.ticket.localPeer.device
    ∧ left.proof.ticket.role = right.proof.ticket.role

/-- What holds of the ledger and the commits it has accepted. -/
structure Sound (state : State) (commits : List Commit) : Prop where
  shaped : state.Shaped
  bounded : state.Bounded
  clocked : ∀ commit ∈ commits, ∃ now, state.time.previous = some now ∧
    commit.time.mono ≤ now.mono ∧ commit.time.wall + (now.mono - commit.time.mono) ≤ now.wall
  fresh : ∀ commit ∈ commits, absDiff commit.time.wall commit.proof.createdMs < freshMs
  /-- A nonce is remembered, or its replay period is over. -/
  remembered : ∀ commit ∈ commits,
    (∃ row, state.replay[commit.proof.replayKey]? = some row ∧
      row.expires = commit.time.mono + replayMs) ∨
    commit.time.mono + replayMs ≤ state.nowMono
  spaced : commits.Pairwise fun earlier later =>
    earlier.proof.replayKey = later.proof.replayKey →
      earlier.time.mono + replayMs ≤ later.time.mono
  once : commits.Pairwise fun earlier later => ¬ SameGrant earlier later
  device : Tracks state.workDevice touchesDevice commits state.nowMono
  group : Tracks state.workGroup touchesGroup commits state.nowMono
  process : Tracks state.workProcess touchesProcess commits state.nowMono

omit [Blake3] in
theorem sound_new : Sound State.new [] where
  shaped := ⟨rfl, rfl, rfl, rfl, rfl, rfl⟩
  bounded := by
    refine ⟨Windows.bounded_new _ _, Windows.bounded_new _ _, Windows.bounded_new _ _,
      Windows.bounded_new _ _, Windows.bounded_new _ _, Windows.bounded_new _ _, ?_, ?_⟩
    · simp [State.new]
    · intro group
      refine ExtTreeMap.size_filter_le_size.trans ?_
      simp [State.new]
  clocked := by simp
  fresh := by simp
  remembered := by simp
  spaced := .nil
  once := .nil
  device := fun key => by
    simpa [State.new, Windows.new, chargesBy] using Metered.nil _ _ _
  group := fun key => by
    simpa [State.new, Windows.new, chargesBy] using Metered.nil _ _ _
  process := fun key => by
    simpa [State.new, Windows.new, chargesBy] using Metered.nil _ _ _

/-! ## Every call keeps the ledger sound -/

namespace State

variable {state base : State} {now : Time}

omit [Crypto] [Blake3]

theorem Observed.nowMono (h : state.Observed now base) : base.nowMono = now.mono := by
  simp [State.nowMono, h.previous]

theorem Observed.nowMono_le (h : state.Observed now base) : state.nowMono ≤ now.mono := by
  unfold State.nowMono
  cases hold : state.time.previous with
  | none => simp
  | some old => simpa using (h.floor old hold).1

theorem Observed.replay (h : state.Observed now base) (key : ReplayKey) :
    base.replay[key]? = state.replay[key]?.filter fun row => now.mono < row.expires := by
  rcases h.pruned with ⟨time, rfl⟩
  simp [prune]

theorem groupReplay_prune (state : State) (now : Nat) (group : Group) :
    (state.prune now).groupReplay group
      = (state.groupReplay group).filter fun _ row => now < row.expires := by
  apply ExtTreeMap.ext_getElem?
  intro key
  simp only [groupReplay, prune, ExtTreeMap.getElem?_filter', Option.filter_filter]
  congr 1
  funext row
  exact Bool.and_comm _ _

theorem Bounded.prune {state : State} (h : state.Bounded) (now : Nat) :
    (state.prune now).Bounded where
  ingressDevice := h.ingressDevice.prune now
  ingressGroup := h.ingressGroup.prune now
  ingressProcess := h.ingressProcess.prune now
  workDevice := h.workDevice.prune now
  workGroup := h.workGroup.prune now
  workProcess := h.workProcess.prune now
  replay := ExtTreeMap.size_filter_le_size.trans h.replay
  group := by
    intro group
    rw [groupReplay_prune]
    exact ExtTreeMap.size_filter_le_size.trans (h.group group)

end State

variable {commits : List Commit}

omit [Blake3] in
/-- Observing a time keeps the ledger sound. -/
theorem Sound.observed {state base : State} {now : Time} (h : Sound state commits)
    (hbase : state.Observed now base) : Sound base commits := by
  have hle := hbase.nowMono_le
  have hnow := hbase.nowMono
  have hreplay := hbase.replay
  have hfloor := hbase.floor
  have hprevious := hbase.previous
  rcases hbase.pruned with ⟨time, rfl⟩
  refine ⟨?_, ?_, ?_, h.fresh, ?_, h.spaced, h.once, ?_, ?_, ?_⟩
  · exact { h.shaped with }
  · have hstamped : State.Bounded { state with time := time } := { h.bounded with }
    exact hstamped.prune now.mono
  · intro commit hmem
    rcases h.clocked commit hmem with ⟨old, hold, hmono, hwall⟩
    rcases hfloor old hold with ⟨hforward, hadvance⟩
    exact ⟨now, hprevious, hmono.trans hforward, by omega⟩
  · intro commit hmem
    rw [hnow]
    rcases h.remembered commit hmem with ⟨row, hrow, hexpires⟩ | hover
    · by_cases hlive : now.mono < row.expires
      · refine .inl ⟨row, ?_, hexpires⟩
        rw [hreplay, hrow]
        simp [hlive]
      · exact .inr (by omega)
    · exact .inr (hover.trans hle)
  · rw [hnow]
    exact h.device.prune hle
  · rw [hnow]
    exact h.group.prune hle
  · rw [hnow]
    exact h.process.prune hle

omit [Crypto] [Blake3] in
/-- After an observation every row is live. -/
theorem live_of_observed {κ : Type} [Ord κ] [TransOrd κ] {windows : Windows κ} {now : Nat}
    {key : κ} {row : Window} (h : (windows.prune now).rows[key]? = some row) :
    now < row.expires := by
  rw [Windows.rows_prune] at h
  exact of_decide_eq_true (Option.filter_eq_some_iff.mp h).2

omit [Blake3] in
/-- Two commits of one grant would need a wall clock that is both fresh and long past it. -/
theorem not_sameGrant {earlier later : Commit}
    (hspaced : earlier.proof.replayKey = later.proof.replayKey →
      earlier.time.mono + replayMs ≤ later.time.mono)
    (hwall : earlier.time.wall + (later.time.mono - earlier.time.mono) ≤ later.time.wall)
    (hearlier : absDiff earlier.time.wall earlier.proof.createdMs < freshMs)
    (hlater : absDiff later.time.wall later.proof.createdMs < freshMs) :
    ¬ SameGrant earlier later := by
  rintro ⟨hframe, hlocal, hrole⟩
  have hgrant : earlier.proof.grant = later.proof.grant := by
    have hparsed := earlier.proof.parsed
    rw [hframe, later.proof.parsed] at hparsed
    exact (Except.ok.inj hparsed).symm
  have hkey : earlier.proof.replayKey = later.proof.replayKey := by
    simp only [VerifiedGrant.replayKey, VerifiedGrant.original, ← earlier.proof.group_eq,
      ← later.proof.group_eq, hgrant, hlocal, hrole]
  have hcreated : earlier.proof.createdMs = later.proof.createdMs := by
    simp only [VerifiedGrant.createdMs, hgrant]
  have hapart := hspaced hkey
  rw [hcreated] at hearlier
  unfold absDiff freshMs at hearlier hlater
  unfold replayMs at hapart
  split at hearlier <;> split at hlater <;> omega

omit [Blake3] in
theorem Sound.stamped {state : State} (h : Sound state commits) {time : TimeFloor}
    (hprevious : time.previous = state.time.previous) :
    Sound { state with time := time } commits := by
  have hnow : State.nowMono { state with time := time } = state.nowMono := by
    simp [State.nowMono, hprevious]
  refine ⟨{ h.shaped with }, { h.bounded with }, ?_, h.fresh, ?_, h.spaced, h.once, ?_, ?_, ?_⟩
  · intro commit hmem
    dsimp only
    rw [hprevious]
    exact h.clocked commit hmem
  · rw [hnow]
    exact h.remembered
  · rw [hnow]
    exact h.device
  · rw [hnow]
    exact h.group
  · rw [hnow]
    exact h.process

omit [Blake3] in
theorem Sound.ingress {state : State} (h : Sound state commits) {device : DeviceKey}
    {group : Group} (hdevice : state.ingressDevice.Allows device 1)
    (hgroup : state.ingressGroup.Allows group 1) (hprocess : state.ingressProcess.Allows () 1)
    (expires : Nat) :
    Sound { state with
      ingressDevice := state.ingressDevice.charge device 1 expires
      ingressGroup := state.ingressGroup.charge group 1 expires
      ingressProcess := state.ingressProcess.charge () 1 expires } commits := { h with
  shaped := { h.shaped with }
  bounded := { h.bounded with
    ingressDevice := h.bounded.ingressDevice.charge hdevice expires
    ingressGroup := h.bounded.ingressGroup.charge hgroup expires
    ingressProcess := h.bounded.ingressProcess.charge hprocess expires } }

theorem State.Bounded.publish {self : Nat} {state : State} {proof : VerifiedGrant} {now : Time}
    (h : state.Bounded) (hshaped : state.Shaped) (hchecked : state.Checked self proof now) :
    (state.publish proof now).Bounded := { h with
  workDevice := by
    have hcap : state.workDevice.cap = maxDevices := (Prod.mk.inj hshaped.workDevice).1
    refine h.workDevice.chargeAll proof.nodup_deviceKeys hchecked.devices ?_ _
    rw [hcap]
    exact hchecked.missing
  workGroup := h.workGroup.charge hchecked.group _
  workProcess := h.workProcess.charge hchecked.process _
  replay := by
    have hlt := hchecked.process_lt
    rw [State.publish, ExtTreeMap.size_insert, ExtTreeMap.contains_eq_isSome_getElem?,
      hchecked.unused]
    simpa using hlt
  group := by
    intro group
    have hsize := size_filter_insert ⟨proof.grant.hash, now.mono + replayMs⟩ hchecked.unused
      fun key _ => key.group = group
    have hle := h.group group
    unfold State.groupReplay at hle ⊢
    rw [State.publish]
    dsimp only
    rw [hsize]
    by_cases hgroup : proof.ticket.group = group
    · have hlt := hchecked.group_lt
      rw [hgroup] at hlt
      unfold State.groupReplay at hlt
      split <;> omega
    · have hkey : ¬ proof.replayKey.group = group := hgroup
      simpa [hkey] using hle }

/-- A published commit keeps the ledger sound. -/
theorem Sound.committed {self : Nat} {state : State} {commits : List Commit}
    {proof : VerifiedGrant} {now : Time} (h : Sound state commits)
    (hprevious : state.time.previous = some now)
    (hchecked : state.Checked self proof now)
    (hdevice : ∀ (key : DeviceKey) (row : Window), state.workDevice.rows[key]? = some row →
      now.mono < row.expires)
    (hgroup : ∀ (key : Group) (row : Window), state.workGroup.rows[key]? = some row →
      now.mono < row.expires)
    (hprocess : ∀ (key : Unit) (row : Window), state.workProcess.rows[key]? = some row →
      now.mono < row.expires) :
    Sound (state.publish proof now) (commits ++ [⟨proof, now⟩]) := by
  have hnow : state.nowMono = now.mono := by simp [State.nowMono, hprevious]
  have hnext : (state.publish proof now).nowMono = now.mono := hnow
  -- An earlier commit of the same key is no longer remembered, so its period is over.
  have hspaced : ∀ commit ∈ commits, commit.proof.replayKey = proof.replayKey →
      commit.time.mono + replayMs ≤ now.mono := by
    intro commit hmem hkey
    rcases h.remembered commit hmem with ⟨row, hrow, -⟩ | hover
    · rw [hkey, hchecked.unused] at hrow
      cases hrow
    · rwa [hnow] at hover
  refine ⟨?_, h.bounded.publish h.shaped hchecked, ?_, ?_, ?_, ?_, ?_, ?_, ?_, ?_⟩
  · refine { h.shaped with workDevice := ?_ }
    rw [State.publish, Windows.chargeAll_cap, Windows.chargeAll_limit]
    exact h.shaped.workDevice
  · exact forall_mem_concat h.clocked ⟨now, hprevious, Nat.le_refl _, by simp⟩
  · exact forall_mem_concat h.fresh hchecked.fresh
  · rw [hnext]
    simp only [State.publish, getElem?_insert_self_or]
    refine forall_mem_concat (fun commit hmem => ?_) (.inl ⟨_, if_pos rfl, rfl⟩)
    by_cases hkey : proof.replayKey = commit.proof.replayKey
    · exact .inr (hspaced commit hmem hkey.symm)
    · rw [if_neg hkey, ← hnow]
      exact h.remembered commit hmem
  · exact pairwise_concat h.spaced hspaced
  · refine pairwise_concat h.once fun earlier hmem => ?_
    rcases h.clocked earlier hmem with ⟨found, hfound, -, hwall⟩
    rw [hprevious] at hfound
    cases hfound
    exact not_sameGrant (hspaced earlier hmem) hwall (h.fresh earlier hmem) hchecked.fresh
  · rw [hnext]
    have htracks := h.device
    rw [hnow] at htracks
    refine htracks.commit (Windows.chargeAll_limit _ _ _ _) hdevice hchecked.devices fun key => ?_
    rw [State.publish, state.workDevice.rows_chargeAll proof.nodup_deviceKeys]
    by_cases hkey : key ∈ proof.deviceKeys
    · rw [if_pos hkey, if_pos (show touchesDevice key proof from hkey)]
    · rw [if_neg hkey, if_neg (show ¬ touchesDevice key proof from hkey)]
  · rw [hnext]
    have htracks := h.group
    rw [hnow] at htracks
    have hlimit : (state.publish proof now).workGroup.limit = state.workGroup.limit := rfl
    refine htracks.commit hlimit hgroup ?_ ?_
    · intro key htouches
      rw [← show proof.ticket.group = key from htouches]
      exact hchecked.group
    · intro key
      rw [State.publish, Windows.rows_charge]
      by_cases hkey : proof.ticket.group = key
      · rw [if_pos hkey, if_pos (show touchesGroup key proof from hkey), hkey]
      · rw [if_neg hkey, if_neg (show ¬ touchesGroup key proof from hkey)]
  · rw [hnext]
    have htracks := h.process
    rw [hnow] at htracks
    have hlimit : (state.publish proof now).workProcess.limit = state.workProcess.limit := rfl
    refine htracks.commit hlimit hprocess (fun _ _ => hchecked.process) ?_
    intro key
    rw [State.publish, Windows.rows_charge, if_pos rfl,
      if_pos (show touchesProcess key proof from trivial)]

theorem Sound.moves {self : Nat} {state next : State} {published : Option Commit}
    (h : Sound state commits) (hmoves : Moves self state next published) :
    Sound next (commits ++ published.toList) := by
  cases hmoves with
  | stamped hprevious => simpa using h.stamped hprevious
  | observed hbase => simpa using h.observed hbase
  | ingress hbase hdevice hgroup hprocess expires =>
    simpa using (h.observed hbase).ingress hdevice hgroup hprocess expires
  | committed hbase hchecked =>
    have hsound := h.observed hbase
    have hprevious := hbase.previous
    rcases hbase.pruned with ⟨time, rfl⟩
    exact hsound.committed hprevious hchecked (fun _ _ => live_of_observed)
      (fun _ _ => live_of_observed) fun _ _ => live_of_observed

theorem run_sound (self : Nat) (calls : List Call) :
    Sound (run (Ledger.step self) .new calls).state
      (run (Ledger.step self) .new calls).commits := by
  refine run_induction (fun _ => True)
    (fun _ (ledger : Ledger) => Sound ledger.state ledger.commits) (fun _ _ _ => trivial) sound_new
    ?_ calls trivial
  intro past call _ hsound
  exact hsound.moves (call_moves self _ call).1

/-! ## At most once -/

/-- No row of the later table is new. -/
def Windows.From {κ : Type} [Ord κ] [TransOrd κ] (later earlier : Windows κ) : Prop :=
  ∀ (key : κ) (row : Window), later.rows[key]? = some row → earlier.rows[key]? = some row

/-- No replay row and no work debit is new. -/
structure Unpublished (state next : State) : Prop where
  replay : ∀ (key : ReplayKey) (row : ReplayRow),
    next.replay[key]? = some row → state.replay[key]? = some row
  workDevice : next.workDevice.From state.workDevice
  workGroup : next.workGroup.From state.workGroup
  workProcess : next.workProcess.From state.workProcess

omit [Crypto] [Blake3] in
theorem Windows.prune_from {κ : Type} [Ord κ] [TransOrd κ] (windows : Windows κ) (now : Nat) :
    (windows.prune now).From windows := by
  intro key row hrow
  rw [Windows.rows_prune] at hrow
  exact (Option.filter_eq_some_iff.mp hrow).1

omit [Crypto] [Blake3] in
theorem Refused.unpublished {state next : State} (h : Refused state next) :
    Unpublished state next := by
  cases h with
  | stamped time =>
    exact ⟨fun _ _ hrow => hrow, fun _ _ hrow => hrow, fun _ _ hrow => hrow,
      fun _ _ hrow => hrow⟩
  | observed hbase =>
    have hreplay := hbase.replay
    rcases hbase.pruned with ⟨time, rfl⟩
    refine ⟨?_, state.workDevice.prune_from _, state.workGroup.prune_from _,
      state.workProcess.prune_from _⟩
    intro key row hrow
    rw [hreplay] at hrow
    exact (Option.filter_eq_some_iff.mp hrow).1

omit [Crypto] [Blake3] in
theorem State.Observed.replay_live {state base : State} {now : Time} (h : state.Observed now base)
    {key : ReplayKey} {row : ReplayRow} (hrow : state.replay[key]? = some row)
    (hlive : now.mono < row.expires) : base.replay[key]? = some row := by
  rw [h.replay, hrow]
  simp [hlive]

/-- A live replay row stays. -/
theorem Moves.replay_live {self : Nat} {state next : State} {published : Option Commit}
    (h : Moves self state next published) {key : ReplayKey} {row : ReplayRow}
    (hrow : state.replay[key]? = some row) (hlive : next.nowMono < row.expires) :
    next.replay[key]? = some row := by
  cases h with
  | stamped => exact hrow
  | observed hbase | ingress hbase =>
    have hnow := hbase.nowMono
    exact hbase.replay_live hrow (hnow ▸ hlive)
  | @committed now base proof hbase hchecked =>
    have hkept := hbase.replay_live hrow (hbase.nowMono ▸ hlive)
    have hkey : proof.replayKey ≠ key := by
      intro heq
      rw [← heq, hchecked.unused] at hkept
      cases hkept
    rw [State.publish, getElem?_insert_self_or, if_neg hkey]
    exact hkept

/-- File-service grants execute at most once. After every run of calls, whatever the clock did:
no grant was committed twice for one local device in one role; commits of one requester's nonce
are a replay period apart; the next call, if it fails, publishes nothing; every table is within
its caps and limits; no interval of a window's width carries more than twice a limit; and the
next call drops no live replay row. -/
theorem grants_execute_once (self : Nat) (calls : List Call) :
    let ledger := run (Ledger.step self) .new calls
    (ledger.commits.Pairwise fun earlier later => ¬ SameGrant earlier later) ∧
      (ledger.commits.Pairwise fun earlier later =>
        earlier.proof.replayKey = later.proof.replayKey →
          earlier.time.mono + replayMs ≤ later.time.mono) ∧
      (∀ call error, (ledger.state.call self call).1 = .error error →
        Unpublished ledger.state (ledger.state.call self call).2 ∧
          (ledger.step self call).commits = ledger.commits) ∧
      (ledger.state.Shaped ∧ ledger.state.Bounded) ∧
      (∀ start, (∀ key, (chargesBy (touchesDevice key) ledger.commits).spent start
            (start + windowMs) ≤ 2 * (64 * mib)) ∧
          (∀ group, (chargesBy (touchesGroup group) ledger.commits).spent start
            (start + windowMs) ≤ 2 * (128 * mib)) ∧
          (chargesBy (touchesProcess ()) ledger.commits).spent start
            (start + windowMs) ≤ 2 * (256 * mib)) ∧
      (∀ (call : Call) (key : ReplayKey) (row : ReplayRow), ledger.state.replay[key]? = some row →
        (ledger.state.call self call).2.nowMono < row.expires →
        (ledger.state.call self call).2.replay[key]? = some row) := by
  intro ledger
  have hsound : Sound ledger.state ledger.commits := run_sound self calls
  refine ⟨hsound.once, hsound.spaced, ?_, ⟨hsound.shaped, hsound.bounded⟩, ?_, ?_⟩
  · intro call error herror
    refine ⟨((call_moves self ledger.state call).2 error herror).unpublished, ?_⟩
    have hnone : call.committed (ledger.state.call self call).1 (ledger.state.call self call).2
        = none := by
      rw [herror]
      unfold Call.committed
      split
      · rename_i hok _
        cases hok
      · rfl
    simp [Ledger.step, hnone]
  · intro start
    refine ⟨?_, ?_, ?_⟩
    · intro key
      have hlimit := (Prod.mk.inj hsound.shaped.workDevice).2
      exact hlimit ▸ (hsound.device key).spent_le start
    · intro group
      have hlimit := (Prod.mk.inj hsound.shaped.workGroup).2
      exact hlimit ▸ (hsound.group group).spent_le start
    · have hlimit := (Prod.mk.inj hsound.shaped.workProcess).2
      exact hlimit ▸ (hsound.process ()).spent_le start
  · intro call key row hrow hlive
    exact (call_moves self ledger.state call).1.replay_live hrow hlive

end Admission

end Mewtual
