import Mewtual.Lib.MapMoves
import Mewtual.Voice.Limits

/-!
# What a call does to the row of a member

Every call on the table prunes all rows, and acts on the row of at most one member. Seen from one
member, a call is a chain of prunings, visits and actions on its own row, and a refused call leaves
only prunings and visits.

Main results:

- Theorem {lit}`OriginLimits.step_row`: what one call does to the row of any member.
-/

namespace Mewtual.Voice

open Std

/-! ## Calls -/

/-- The calls on the table. -/
inductive Call where
  | requester (member : DeviceId)
  | origin (member : DeviceId) (kind : Traffic)
  | join (member : DeviceId) (join : Nonce) (keyRef : KeyRef) (delegationUntil : Nat)
  | renewal (member : DeviceId) (join : Nonce) (keyRef : KeyRef) (sequence : Nat)
  | admitPacket (object : OriginLimits.SignedObject) (wall : Nat)
  | protectPair (member : DeviceId) (join : Nonce) (keyRef : KeyRef) (lease : CallLease)
  | retirePair (member : DeviceId) (join : Nonce) (keyRef : KeyRef) (lease : CallLease)
  | prepareExchangeMembers (members : List DeviceId) (sameResources : Bool)
  | collectExpired

/-- A call at a time of the clock, with the leases that are live at each of its prunings and the
answers of the pool. -/
structure Event where
  call : Call
  now : Nat
  now_le : now ≤ usizeMax
  live : Nat → CallLease → Bool
  credit : Nat → Except VoiceError Unit

/-- What a call answers, and the table it leaves. -/
def OriginLimits.step (limits : OriginLimits) (event : Event) :
    Except VoiceError Unit × OriginLimits :=
  match event.call with
  | .requester member => limits.requester (event.credit 0) (event.live 0) member event.now
  | .origin member kind => limits.origin (event.credit 0) (event.live 0) member kind event.now
  | .join member join keyRef delegationUntil =>
    limits.join (event.credit 0) (event.live 0) member join keyRef event.now delegationUntil
  | .renewal member join keyRef sequence =>
    limits.renewal (event.credit 0) (event.live 0) member join keyRef sequence event.now
  | .admitPacket object wall =>
    limits.admitPacket (event.credit 0) event.live object event.now wall
  | .protectPair member join keyRef lease =>
    limits.protectPair (event.credit 0) (event.live 0) (event.live 1) member join keyRef lease
      event.now
  | .retirePair member join keyRef lease => (.ok (), limits.retirePair member join keyRef lease)
  | .prepareExchangeMembers members sameResources =>
    limits.prepareExchangeMembers event.credit event.live members sameResources event.now
  | .collectExpired => (.ok (), limits.collectExpired (event.live 0) event.now)

/-! ## Rows -/

/-- The row of a member, if it has one. -/
abbrev Row := Option Record

namespace Row

/-- What a pruning leaves of a row. -/
def collect (live : CallLease → Bool) (now : Nat) (row : Row) : Row :=
  Option.bind row fun record => record.collected live now

/-- Prune the row, and open or touch it. -/
def visit (credit : Except VoiceError Unit) (live : CallLease → Bool) (now : Nat) (row : Row) :
    Except VoiceError Record :=
  match row.collect live now with
  | some record => .ok (record.touch now)
  | none => credit.map fun _ => .fresh now

variable {credit : Except VoiceError Unit} {live : CallLease → Bool} {now : Nat} {row : Row}
  {record : Record}

/-- A row is pruned, or forgotten after a minute without a binding. -/
theorem collect_cases (live : CallLease → Bool) (now : Nat) (record : Record) :
    collect live now (some record) = some (record.pruned live now) ∨
      (collect live now (some record) = none ∧ retainMs ≤ now - record.touched ∧
        (record.pruned live now).bindings = []) := by
  unfold collect Record.collected
  rw [Option.bind_some]
  by_cases hkept : now - record.touched < retainMs ∨ (record.pruned live now).bindings ≠ []
  · rw [if_pos hkept]
    exact .inl rfl
  · rw [if_neg hkept]
    exact .inr ⟨rfl, Nat.le_of_not_lt fun hyoung => hkept (.inl hyoung),
      not_not.mp fun hbound => hkept (.inr hbound)⟩

/-- A visit touches what is left of the row, or opens it. -/
theorem visit_cases (h : row.visit credit live now = .ok record) :
    (∃ found, row.collect live now = some found ∧ record = found.touch now) ∨
      (row.collect live now = none ∧ record = .fresh now) := by
  unfold visit at h
  split at h
  · rename_i found hfound
    cases h
    exact .inl ⟨found, hfound, rfl⟩
  · rename_i hnone
    cases credit with
    | error error => cases h
    | ok _ =>
      cases h
      exact .inr ⟨hnone, rfl⟩

theorem touched_of_visit (h : row.visit credit live now = .ok record) : now ≤ record.touched := by
  rcases visit_cases h with ⟨found, _, rfl⟩ | ⟨_, rfl⟩
  · exact Nat.le_max_right _ _
  · exact Nat.le_refl _

/-- A row that is not opened was collected. -/
theorem collect_of_visit_error {error : VoiceError} (h : row.visit credit live now = .error error) :
    row.collect live now = none := by
  unfold visit at h
  split at h
  · cases h
  · assumption

end Row

namespace OriginLimits

theorem row_put (limits : OriginLimits) (member other : DeviceId) (record : Record) :
    (limits.put member record).records[other]? =
      if member = other then some record else limits.records[other]? :=
  getElem?_insert_self_or member other record

theorem row_modify (limits : OriginLimits) (member other : DeviceId) (change : Record → Record) :
    (limits.records.modify member change)[other]? =
      if member = other then limits.records[other]?.map change else limits.records[other]? := by
  rw [ExtTreeMap.getElem?_modify]
  by_cases hother : member = other
  · rw [if_pos hother, if_pos (Std.compare_eq_iff_eq.mpr hother), hother]
  · rw [if_neg hother, if_neg (fun heq => hother (Std.compare_eq_iff_eq.mp heq))]

theorem row_collectExpired (live : CallLease → Bool) (now : Nat) (limits : OriginLimits)
    (other : DeviceId) :
    (limits.collectExpired live now).records[other]? =
      Row.collect live now limits.records[other]? :=
  ExtTreeMap.getElem?_filterMap'

/-- The row that is visited, and every other one. -/
theorem record_spec (credit : Except VoiceError Unit) (live : CallLease → Bool)
    (member : DeviceId) (now : Nat) (limits : OriginLimits) :
    (limits.record credit live member now).1 = Row.visit credit live now limits.records[member]? ∧
      ∀ other, (limits.record credit live member now).2.records[other]? =
        if member = other then (Row.visit credit live now limits.records[member]?).toOption
        else Row.collect live now limits.records[other]? := by
  unfold record Row.visit
  dsimp only
  rw [row_collectExpired]
  cases hrow : Row.collect live now limits.records[member]? with
  | some record =>
    refine ⟨rfl, fun other => ?_⟩
    rw [row_put, row_collectExpired]
    rfl
  | none =>
    cases credit with
    | error error =>
      refine ⟨rfl, fun other => ?_⟩
      rw [row_collectExpired]
      by_cases hother : member = other
      · rw [if_pos hother, ← hother, hrow]
        rfl
      · rw [if_neg hother]
    | ok _ =>
      refine ⟨rfl, fun other => ?_⟩
      rw [row_put, row_collectExpired]
      rfl

end OriginLimits

/-! ## Actions on a row -/

/-- What a call does to a row. -/
inductive Act where
  | requester
  | traffic (kind : Traffic)
  | join (nonce : Nonce) (keyRef : KeyRef) (deadline : Nat)
  | renew (nonce : Nonce) (keyRef : KeyRef) (sequence : Nat)
  | protect (nonce : Nonce) (keyRef : KeyRef) (lease : CallLease)
deriving DecidableEq

/-- The answer to an action, and the row it leaves. -/
def Act.apply (now : Nat) : Act → Record → Except VoiceError Unit × Record
  | .requester => Record.spendRequester now
  | .traffic kind => Record.spendTraffic kind now
  | .join nonce keyRef deadline => Record.join nonce keyRef now deadline
  | .renew nonce keyRef sequence => Record.renew nonce keyRef sequence
  | .protect nonce keyRef lease => Record.protect nonce keyRef lease

/-- What limits the traffic of a member. -/
inductive Meter where
  | requester | room | setup
deriving DecidableEq

namespace Meter

/-- Tokens per second. -/
def rate : Meter → Nat
  | .requester | .setup => 20
  | .room => 2

/-- Tokens of a full bucket. -/
def burst : Meter → Nat
  | .requester | .setup => 40
  | .room => 8

def bucket : Meter → Record → TokenBucket
  | .requester => Record.requester
  | .room => Record.room
  | .setup => Record.setup

/-- The meter that an action charges. -/
def charged : Act → Option Meter
  | .requester => some .requester
  | .traffic .room => some .room
  | .traffic .setup => some .setup
  | .join .. | .renew .. | .protect .. => none

/-- An action on joins leaves the buckets alone. -/
def Leaves (record after : Record) : Prop :=
  after.touched = record.touched ∧ ∀ meter, bucket meter after = bucket meter record

theorem leaves_refl (record : Record) : Leaves record record := ⟨rfl, fun _ => rfl⟩

theorem leaves_joins (record : Record) (joins : List SeenJoin) (bindings : List Binding) :
    Leaves record { record with joins := joins, bindings := bindings } :=
  ⟨rfl, fun meter => by cases meter <;> rfl⟩

theorem leaves_apply {act : Act} (h : charged act = none) (now : Nat) (record : Record) :
    Leaves record (act.apply now record).2 := by
  cases act with
  | requester => cases h
  | traffic kind => cases kind <;> cases h
  | join nonce keyRef deadline =>
    dsimp only [Act.apply, Record.join]
    split
    · split <;> exact leaves_joins record _ _
    · unfold Record.bind
      dsimp only
      repeat' split
      all_goals exact leaves_joins record _ _
  | renew nonce keyRef sequence =>
    dsimp only [Act.apply, Record.renew]
    split
    · exact leaves_refl record
    · split
      · exact leaves_refl record
      · exact leaves_joins record _ _
  | protect nonce keyRef lease =>
    dsimp only [Act.apply, Record.protect]
    split
    · exact leaves_refl record
    · split
      · exact leaves_refl record
      · split
        · exact leaves_refl record
        · exact leaves_joins record record.joins _

theorem touched_apply (act : Act) (now : Nat) (record : Record) :
    (act.apply now record).2.touched = record.touched := by
  cases act with
  | requester => rfl
  | traffic kind => cases kind <;> rfl
  | join | renew | protect => exact (leaves_apply rfl now record).1

/-- A meter that the action does not charge. -/
theorem bucket_apply_of_ne {meter : Meter} {act : Act} (h : charged act ≠ some meter) (now : Nat)
    (record : Record) : bucket meter (act.apply now record).2 = bucket meter record := by
  cases act with
  | requester => cases meter <;> first | rfl | exact absurd rfl h
  | traffic kind => cases kind <;> cases meter <;> first | rfl | exact absurd rfl h
  | join | renew | protect => exact (leaves_apply rfl now record).2 meter

/-- The meter that an action charges decides its answer. -/
theorem apply_of_charged {meter : Meter} {act : Act} (h : charged act = some meter) (now : Nat)
    (record : Record) :
    (act.apply now record).1 = (if ((bucket meter record).spend meter.rate meter.burst now).1 then
        .ok () else .error .rateLimited) ∧
      bucket meter (act.apply now record).2 =
        ((bucket meter record).spend meter.rate meter.burst now).2 := by
  cases act with
  | requester =>
    cases h
    exact ⟨rfl, rfl⟩
  | traffic kind => cases kind <;> cases h <;> exact ⟨rfl, rfl⟩
  | join | renew | protect => cases h

end Meter

/-- The actions of a call that was accepted. -/
def committed (outcome : Except VoiceError Unit) (acts : List Act) : List Act :=
  match outcome with
  | .ok () => acts
  | .error _ => []

@[simp] theorem committed_nil (outcome : Except VoiceError Unit) : committed outcome [] = [] := by
  cases outcome <;> rfl

theorem committed_of_mem {outcome : Except VoiceError Unit} {acts : List Act} {act : Act}
    (h : act ∈ committed outcome acts) : outcome = .ok () ∧ committed outcome acts = acts := by
  cases outcome with
  | ok _ => exact ⟨rfl, rfl⟩
  | error error => cases h

/-- What an admitted packet does to the row of its issuer. -/
def packetActs (object : OriginLimits.SignedObject) (now wall : Nat) : List Act :=
  .traffic object.body.traffic :: match object.body with
    | .announcement nonce keyRef renewal =>
      [.join nonce keyRef (object.deadline now wall), .renew nonce keyRef renewal]
    | .watchChallenge | .other => []

/-- What an accepted call does to the row of a member. -/
def Event.acts (event : Event) (member : DeviceId) : List Act :=
  match event.call with
  | .requester subject => if subject = member then [.requester] else []
  | .origin subject kind => if subject = member then [.traffic kind] else []
  | .join subject join keyRef delegationUntil =>
    if subject = member then [.join join keyRef delegationUntil] else []
  | .renewal subject join keyRef sequence =>
    if subject = member then [.renew join keyRef sequence] else []
  | .admitPacket object wall =>
    if object.issuer = member then packetActs object event.now wall else []
  | .protectPair subject join keyRef lease =>
    if subject = member then [.protect join keyRef lease] else []
  | .retirePair .. | .prepareExchangeMembers .. | .collectExpired => []

/-- A chain of prunings, visits and actions on a row at the time of a call, with the actions that
were accepted. Every action is on a row that was just visited. -/
inductive Chain (event : Event) : List Act → Row → Row → Prop where
  | refl (row : Row) : Chain event [] row row
  | collect {acts : List Act} {row next : Row} (h : Chain event acts row next) (view : Nat) :
      Chain event acts row (next.collect (event.live view) event.now)
  | visit {acts : List Act} {row next : Row} (h : Chain event acts row next)
      (credit : Except VoiceError Unit) (view : Nat) :
      Chain event acts row (next.visit credit (event.live view) event.now).toOption
  | accepted {acts : List Act} {row next : Row} (h : Chain event acts row next)
      {credit : Except VoiceError Unit} {view : Nat} {record : Record}
      (hvisit : next.visit credit (event.live view) event.now = .ok record)
      {act : Act} (hok : (act.apply event.now record).1 = .ok ()) :
      Chain event (acts ++ [act]) row (some (act.apply event.now record).2)
  | refused {acts : List Act} {row next : Row} (h : Chain event acts row next)
      {credit : Except VoiceError Unit} {view : Nat} {record : Record}
      (hvisit : next.visit credit (event.live view) event.now = .ok record)
      {act : Act} {error : VoiceError} (herror : (act.apply event.now record).1 = .error error) :
      Chain event acts row (some (act.apply event.now record).2)

namespace Chain

variable {event : Event}

theorem trans {acts later : List Act} {row next last : Row} (h : Chain event acts row next)
    (hlater : Chain event later next last) : Chain event (acts ++ later) row last := by
  induction hlater with
  | refl row =>
    rw [List.append_nil]
    exact h
  | collect _ view ih => exact (ih h).collect view
  | visit _ credit view ih => exact (ih h).visit credit view
  | accepted _ hvisit hok ih =>
    rw [← List.append_assoc]
    exact (ih h).accepted hvisit hok
  | refused _ hvisit herror ih => exact (ih h).refused hvisit herror

/-- What holds of a row along a chain. A visit without credit only prunes. -/
theorem follow {row : Row} {P : List Act → Row → Prop} (hstart : P [] row)
    (hcollect : ∀ {acts : List Act} {next : Row} (view : Nat), P acts next →
      P acts (next.collect (event.live view) event.now))
    (hvisit : ∀ {acts : List Act} {next : Row} {credit : Except VoiceError Unit} {view : Nat}
      {record : Record},
      next.visit credit (event.live view) event.now = .ok record → P acts next →
        P acts (some record))
    (haccepted : ∀ {acts : List Act} {record : Record} {act : Act}, event.now ≤ record.touched →
      (act.apply event.now record).1 = .ok () → P acts (some record) →
        P (acts ++ [act]) (some (act.apply event.now record).2))
    (hrefused : ∀ {acts : List Act} {record : Record} {act : Act} {error : VoiceError},
      event.now ≤ record.touched →
      (act.apply event.now record).1 = .error error → P acts (some record) →
        P acts (some (act.apply event.now record).2))
    {acts : List Act} {next : Row} (h : Chain event acts row next) : P acts next := by
  induction h with
  | refl row => exact hstart
  | collect _ view ih => exact hcollect view (ih hstart)
  | @visit acts row next _ credit view ih =>
    cases hfound : next.visit credit (event.live view) event.now with
    | ok record => exact hvisit hfound (ih hstart)
    | error error =>
      have hpruned := hcollect view (ih hstart)
      rw [Row.collect_of_visit_error hfound] at hpruned
      exact hpruned
  | accepted _ hfound hok ih =>
    exact haccepted (Row.touched_of_visit hfound) hok (hvisit hfound (ih hstart))
  | refused _ hfound herror ih =>
    exact hrefused (Row.touched_of_visit hfound) herror (hvisit hfound (ih hstart))

end Chain

/-- Prunings at the time of a call, and nothing else. -/
inductive Pruned (event : Event) : Row → Row → Prop where
  | refl (row : Row) : Pruned event row row
  | collect {row next : Row} (h : Pruned event row next) (view : Nat) :
      Pruned event row (next.collect (event.live view) event.now)

namespace Pruned

variable {event : Event} {row next : Row}

theorem trans (h : Pruned event row next) {last : Row} (hlast : Pruned event next last) :
    Pruned event row last := by
  induction hlast with
  | refl => exact h
  | collect _ view ih => exact ih.collect view

theorem chain (h : Pruned event row next) : Chain event [] row next := by
  induction h with
  | refl => exact .refl row
  | collect _ view ih => exact ih.collect view

end Pruned

/-- What a call does to the row of a member: it retires a pin, or it is a chain. -/
inductive Move (event : Event) (member : DeviceId) : List Act → Row → Row → Prop where
  | retired {nonce : Nonce} {keyRef : KeyRef} {lease : CallLease}
      (hcall : event.call = .retirePair member nonce keyRef lease) (row : Row) :
      Move event member [] row (row.map (Record.retire nonce keyRef lease))
  | chain {acts : List Act} {row next : Row} (h : Chain event acts row next) :
      Move event member acts row next

/-! ## One call -/

namespace OriginLimits

variable (event : Event) (credit : Except VoiceError Unit) (view : Nat) (limits : OriginLimits)

/-- A visit of the row of a member prunes every other one. -/
theorem record_row (member other : DeviceId) :
    Chain event [] limits.records[other]?
      (limits.record credit (event.live view) member event.now).2.records[other]? := by
  rw [(limits.record_spec credit (event.live view) member event.now).2 other]
  by_cases hother : member = other
  · rw [if_pos hother, ← hother]
    exact (Chain.refl _).visit credit view
  · rw [if_neg hother]
    exact (Chain.refl _).collect view

theorem record_others {member other : DeviceId} (hother : member ≠ other) :
    Pruned event limits.records[other]?
      (limits.record credit (event.live view) member event.now).2.records[other]? := by
  rw [(limits.record_spec credit (event.live view) member event.now).2 other, if_neg hother]
  exact (Pruned.refl _).collect view

/-- Acting on the row of a member prunes every other one. -/
theorem act_others {member other : DeviceId} (hother : member ≠ other)
    (action : Record → Except VoiceError Unit × Record) :
    Pruned event limits.records[other]?
      (limits.act credit (event.live view) member event.now action).2.records[other]? := by
  have hrow := record_others event credit view limits hother
  unfold OriginLimits.act
  generalize limits.record credit (event.live view) member event.now = visited at hrow
  obtain ⟨result, table⟩ := visited
  cases result with
  | error error => exact hrow
  | ok record =>
    dsimp only
    rw [row_put, if_neg hother]
    exact hrow

/-- Acting on the row of a member: an action that is accepted or refused after a visit. -/
theorem act_row (member : DeviceId) (act : Act) (other : DeviceId) :
    Chain event
      (committed (limits.act credit (event.live view) member event.now (act.apply event.now)).1
        (if member = other then [act] else []))
      limits.records[other]?
      (limits.act credit (event.live view) member event.now
        (act.apply event.now)).2.records[other]? := by
  have hresult := (limits.record_spec credit (event.live view) member event.now).1
  have hvisited := record_row event credit view limits member other
  unfold OriginLimits.act
  generalize limits.record credit (event.live view) member event.now = visited at hresult hvisited
  obtain ⟨result, table⟩ := visited
  dsimp only at hresult hvisited
  cases result with
  | error error => exact hvisited
  | ok record =>
    dsimp only
    rw [row_put]
    by_cases hother : member = other
    · rw [if_pos hother, if_pos hother, ← hother]
      cases hact : (act.apply event.now record).1 with
      | ok _ => exact (Chain.refl _).accepted hresult.symm hact
      | error error => exact (Chain.refl _).refused hresult.symm hact
    · rw [if_neg hother, if_neg hother, committed_nil]
      exact hvisited

/-! ## Packets -/

/-- Taking an admission back gives the row it began with, if its time and its requester's bucket are
the same. -/
theorem restore_eq {backup record : Record} (htime : record.touched = backup.touched)
    (hrequester : record.requester = backup.requester) : Record.restore backup record = backup := by
  unfold Record.restore
  rw [htime, hrequester]

/-- The row of a member still has the time and the requester's bucket of an earlier one. -/
def Keeps (backup : Record) (limits : OriginLimits) (member : DeviceId) : Prop :=
  ∃ record, limits.records[member]? = some record ∧ record.touched = backup.touched ∧
    record.requester = backup.requester

/-- Actions on a row touched now that leave its time and requester's bucket alone. -/
theorem Keeps.act {backup : Record} {limits : OriginLimits} {member : DeviceId}
    (h : limits.Keeps backup member) {now : Nat} (htouched : now ≤ backup.touched) {act : Act}
    (hact : Meter.charged act ≠ some .requester) (live : CallLease → Bool) :
    (limits.act credit live member now (act.apply now)).2.Keeps backup member := by
  obtain ⟨record, hrow, htime, hrequester⟩ := h
  obtain ⟨hresult, hrows⟩ := limits.record_spec credit live member now
  have hpruned : Row.visit credit live now limits.records[member]? =
      .ok ((record.pruned live now).touch now) := by
    unfold Row.visit Row.collect Record.collected
    rw [hrow, Option.bind_some, if_pos (.inl (by unfold retainMs; omega))]
  unfold OriginLimits.act
  rw [hpruned] at hresult
  generalize limits.record credit live member now = visited at hresult hrows
  obtain ⟨result, table⟩ := visited
  dsimp only at hresult
  subst hresult
  refine ⟨(act.apply now ((record.pruned live now).touch now)).2, ?_, ?_, ?_⟩
  · dsimp only
    rw [row_put, if_pos rfl]
  · rw [Meter.touched_apply]
    dsimp only [Record.touch, Record.pruned]
    omega
  · have hbucket := Meter.bucket_apply_of_ne hact now ((record.pruned live now).touch now)
    exact hbucket.trans hrequester

/-- Go on if the first part was accepted. -/
def andThen (first : Except VoiceError Unit × OriginLimits)
    (next : OriginLimits → Except VoiceError Unit × OriginLimits) :
    Except VoiceError Unit × OriginLimits :=
  match first with
  | (.error error, limits) => (.error error, limits)
  | (.ok (), limits) => next limits

/-- A part of an admission: what it does to the rows if it is accepted, and what it leaves of the
row of the issuer in any case. -/
structure Attempt (event : Event) (member : DeviceId) (acts : List Act) (limits : OriginLimits)
    (result : Except VoiceError Unit × OriginLimits) : Prop where
  others : ∀ other, member ≠ other → Pruned event limits.records[other]? result.2.records[other]?
  subject : result.1 = .ok () → Chain event acts limits.records[member]? result.2.records[member]?
  keeps : ∀ backup, event.now ≤ backup.touched → limits.Keeps backup member →
    result.2.Keeps backup member

namespace Attempt

variable (member : DeviceId)

theorem refl :
    Attempt event member [] limits (.ok (), limits) where
  others := fun _ _ => .refl _
  subject := fun _ => .refl _
  keeps := fun _ _ hkeeps => hkeeps

theorem act (act : Act) (hact : Meter.charged act ≠ some .requester) :
    Attempt event member [act] limits
      (limits.act credit (event.live view) member event.now (act.apply event.now)) where
  others := fun _ hother => act_others event credit view limits hother _
  subject := by
    intro hok
    have hrow := act_row event credit view limits member act member
    rw [if_pos rfl, hok] at hrow
    exact hrow
  keeps := fun _ htouched hkeeps => hkeeps.act credit htouched hact (event.live view)

theorem join (nonce : Nonce) (keyRef : KeyRef) (deadline : Nat) :
    Attempt event member [.join nonce keyRef deadline] limits
      (limits.join credit (event.live view) member nonce keyRef event.now deadline) := by
  unfold OriginLimits.join
  split
  · exact ⟨fun _ _ => .refl _, (fun hok => nomatch hok), fun _ _ hkeeps => hkeeps⟩
  · exact Attempt.act event credit view limits member (.join nonce keyRef deadline)
      nofun

/-- The second part of an admission is tried if the first one was accepted. -/
theorem andThen {event : Event} {limits : OriginLimits} {member : DeviceId} {acts later : List Act}
    {first : Except VoiceError Unit × OriginLimits}
    {next : OriginLimits → Except VoiceError Unit × OriginLimits}
    (h : Attempt event member acts limits first)
    (hnext : ∀ limits, Attempt event member later limits (next limits)) :
    Attempt event member (acts ++ later) limits (OriginLimits.andThen first next) := by
  obtain ⟨outcome, table⟩ := first
  cases outcome with
  | error error => exact ⟨h.others, (fun hok => nomatch hok), h.keeps⟩
  | ok _ =>
    refine ⟨fun other hother => ?_, fun hok => ?_, fun backup htouched hkeeps => ?_⟩
    · exact (h.others other hother).trans ((hnext table).others other hother)
    · exact (h.subject rfl).trans ((hnext table).subject hok)
    · exact (hnext table).keeps backup htouched (h.keeps backup htouched hkeeps)

/-- An announcement binds and renews its join after its traffic is charged. -/
theorem admitBody (object : SignedObject) (wall : Nat) :
    Attempt event object.issuer (packetActs object event.now wall) limits
      (OriginLimits.admitBody credit event.live object event.now wall limits) := by
  have hcharged : Meter.charged (.traffic object.body.traffic) ≠ some .requester := by
    cases object.body.traffic <;> exact nofun
  have horigin := Attempt.act event credit 1 limits object.issuer (.traffic object.body.traffic)
    hcharged
  unfold OriginLimits.admitBody packetActs
  refine horigin.andThen fun charged => ?_
  cases object.body with
  | announcement nonce keyRef renewal =>
    refine (Attempt.join event credit 2 charged object.issuer nonce keyRef _).andThen
      fun bound => ?_
    exact Attempt.act event credit 3 bound object.issuer (.renew nonce keyRef renewal)
      nofun
  | watchChallenge | other => exact .refl event charged object.issuer

end Attempt

/-- A packet is refused with its visit, admitted, or taken back. -/
theorem admitPacket_cases (live : Nat → CallLease → Bool) (object : SignedObject) (now wall : Nat) :
    let visited := limits.record credit (live 0) object.issuer now
    let admitted := admitBody credit live object now wall visited.2
    (∃ error, visited.1 = .error error ∧
      limits.admitPacket credit live object now wall = (.error error, visited.2)) ∨
    ∃ backup, visited.1 = .ok backup ∧
      ((admitted.1 = .ok () ∧ limits.admitPacket credit live object now wall = admitted) ∨
        ∃ error, limits.admitPacket credit live object now wall =
          (.error error, ⟨admitted.2.records.modify object.issuer (Record.restore backup)⟩)) := by
  unfold admitPacket
  rcases limits.record credit (live 0) object.issuer now with ⟨error | backup, table⟩
  · exact .inl ⟨error, rfl, rfl⟩
  · refine .inr ⟨backup, rfl, ?_⟩
    dsimp only
    rcases admitBody credit live object now wall table with ⟨error | _, admitted⟩
    · exact .inr ⟨error, rfl⟩
    · exact .inl ⟨rfl, rfl⟩

/-- A refused packet leaves the row of its issuer as the visit found or opened it. -/
theorem admitPacket_refused {event : Event} {credit : Except VoiceError Unit}
    {object : SignedObject} {wall : Nat} {limits : OriginLimits} {error : VoiceError}
    (h : (limits.admitPacket credit event.live object event.now wall).1 = .error error) :
    (limits.admitPacket credit event.live object event.now wall).2.records[object.issuer]? =
      (Row.visit credit (event.live 0) event.now limits.records[object.issuer]?).toOption := by
  obtain ⟨hresult, hrows⟩ := limits.record_spec credit (event.live 0) object.issuer event.now
  have hrow := hrows object.issuer
  rw [if_pos rfl] at hrow
  rcases admitPacket_cases credit limits event.live object event.now wall with
    ⟨error, _, heq⟩ | ⟨backup, hbackup, ⟨hok, heq⟩ | ⟨error, heq⟩⟩
  · rw [heq]
    exact hrow
  · rw [heq, hok] at h
    cases h
  · rw [hresult] at hbackup
    rw [hbackup] at hrow ⊢
    obtain ⟨record, hrecord, htime, hrequester⟩ :=
      (Attempt.admitBody event credit _ object wall).keeps backup (Row.touched_of_visit hbackup)
        ⟨backup, hrow, rfl, rfl⟩
    rw [heq, row_modify, if_pos rfl, hrecord, Option.map_some, restore_eq htime hrequester]
    rfl

/-- A packet prunes the rows of everyone but its issuer. -/
theorem admitPacket_others (object : SignedObject) (wall : Nat) {other : DeviceId}
    (hother : object.issuer ≠ other) :
    Pruned event limits.records[other]?
      (limits.admitPacket credit event.live object event.now wall).2.records[other]? := by
  have hvisit := record_others event credit 0 limits hother
  have hothers (table : OriginLimits) :=
    (Attempt.admitBody event credit table object wall).others other hother
  rcases admitPacket_cases credit limits event.live object event.now wall with
    ⟨error, _, heq⟩ | ⟨backup, _, ⟨_, heq⟩ | ⟨error, heq⟩⟩
  · rw [heq]
    exact hvisit
  · rw [heq]
    exact hvisit.trans (hothers _)
  · rw [heq, row_modify, if_neg hother]
    exact hvisit.trans (hothers _)

theorem admitPacket_row (object : SignedObject) (wall : Nat) (other : DeviceId) :
    Chain event
      (committed (limits.admitPacket credit event.live object event.now wall).1
        (if object.issuer = other then packetActs object event.now wall else []))
      limits.records[other]?
      (limits.admitPacket credit event.live object event.now wall).2.records[other]? := by
  by_cases hother : object.issuer = other
  · subst hother
    rw [if_pos rfl]
    cases houtcome : (limits.admitPacket credit event.live object event.now wall).1 with
    | error error =>
      rw [admitPacket_refused houtcome]
      exact (Chain.refl _).visit credit 0
    | ok _ =>
      rcases admitPacket_cases credit limits event.live object event.now wall with
        ⟨error, _, heq⟩ | ⟨backup, _, ⟨hok, heq⟩ | ⟨error, heq⟩⟩
      · rw [heq] at houtcome
        cases houtcome
      · rw [heq]
        exact (record_row event credit 0 limits object.issuer object.issuer).trans
          ((Attempt.admitBody event credit _ object wall).subject hok)
      · rw [heq] at houtcome
        cases houtcome
  · rw [if_neg hother, committed_nil]
    exact (admitPacket_others event credit limits object wall hother).chain

/-- Rows that are only visited. -/
theorem prepareMembers_row (members : List DeviceId) :
    ∀ (turn : Nat) (limits : OriginLimits) (other : DeviceId),
      Chain event [] limits.records[other]?
        (prepareMembers event.credit event.live event.now turn members
          limits).2.records[other]? := by
  induction members with
  | nil => exact fun _ _ _ => .refl _
  | cons member members ih =>
    intro turn limits other
    have hvisit := record_row event (event.credit turn) turn limits member other
    unfold prepareMembers
    generalize limits.record (event.credit turn) (event.live turn) member event.now = visited
      at hvisit ⊢
    obtain ⟨result, table⟩ := visited
    cases result with
    | error error => exact hvisit
    | ok record => exact hvisit.trans (ih (turn + 1) table other)

/-- What a call does to the row of any member, with its actions on that row if it is accepted. -/
theorem step_row (limits : OriginLimits) (event : Event) (other : DeviceId) :
    Move event other (committed (limits.step event).1 (event.acts other)) limits.records[other]?
      (limits.step event).2.records[other]? := by
  unfold step Event.acts
  cases hcall : event.call with
  | requester member => exact .chain (act_row event _ 0 limits member .requester other)
  | origin member kind => exact .chain (act_row event _ 0 limits member (.traffic kind) other)
  | join member nonce keyRef deadline =>
    dsimp only [OriginLimits.join]
    split
    · exact .chain (.refl _)
    · exact .chain (act_row event _ 0 limits member (.join nonce keyRef deadline) other)
  | renewal member nonce keyRef sequence =>
    exact .chain (act_row event _ 0 limits member (.renew nonce keyRef sequence) other)
  | admitPacket object wall => exact .chain (admitPacket_row event _ limits object wall other)
  | protectPair member nonce keyRef lease =>
    dsimp only [OriginLimits.protectPair]
    split
    · exact .chain (.refl _)
    · exact .chain (act_row event _ 1 limits member (.protect nonce keyRef lease) other)
  | retirePair member nonce keyRef lease =>
    dsimp only [OriginLimits.retirePair]
    rw [row_modify, committed_nil]
    by_cases hother : member = other
    · rw [if_pos hother]
      exact .retired (hother ▸ hcall) _
    · rw [if_neg hother]
      exact .chain (.refl _)
  | prepareExchangeMembers members sameResources =>
    dsimp only [OriginLimits.prepareExchangeMembers]
    rw [committed_nil]
    split
    · exact .chain (.refl _)
    · split
      · exact .chain (.refl _)
      · exact .chain (prepareMembers_row event members 0 limits other)
  | collectExpired =>
    dsimp only
    rw [row_collectExpired]
    exact .chain ((Chain.refl _).collect 0)

/-! ## Deadlines -/

variable {limits} {event} {live : Nat → CallLease → Bool}

theorem lt_of_join {credit : Except VoiceError Unit} {live : CallLease → Bool} {member : DeviceId}
    {nonce : Nonce} {keyRef : KeyRef} {now deadline : Nat}
    (hok : (limits.join credit live member nonce keyRef now deadline).1 = .ok ()) :
    now < deadline := by
  unfold OriginLimits.join at hok
  split at hok
  · cases hok
  · rename_i hfresh
    exact Nat.lt_of_not_le fun hle => hfresh (.inl hle)

theorem lt_of_admitBody {credit : Except VoiceError Unit} {object : SignedObject} {now wall : Nat}
    {nonce : Nonce} {keyRef : KeyRef} {renewal : Nat}
    (hbody : object.body = .announcement nonce keyRef renewal)
    (hok : (admitBody credit live object now wall limits).1 = .ok ()) :
    now < object.deadline now wall := by
  unfold admitBody at hok
  rw [hbody] at hok
  split at hok
  · cases hok
  · dsimp only at hok
    split at hok
    · cases hok
    · rename_i hjoin
      exact lt_of_join (congrArg Prod.fst hjoin)

/-- A join is accepted only before its deadline. -/
theorem lt_of_committed {member : DeviceId} {nonce : Nonce} {keyRef : KeyRef} {deadline : Nat}
    (h : .join nonce keyRef deadline ∈ committed (limits.step event).1 (event.acts member)) :
    event.now < deadline := by
  obtain ⟨hok, hacts⟩ := committed_of_mem h
  rw [hacts] at h
  unfold step at hok
  unfold Event.acts at h
  cases hcall : event.call with
  | join subject other key last =>
    rw [hcall] at h hok
    dsimp only at h
    split at h
    · cases List.mem_singleton.mp h
      exact lt_of_join hok
    · cases h
  | admitPacket object wall =>
    rw [hcall] at h hok
    dsimp only [packetActs] at h
    split at h
    · cases hbody : object.body with
      | announcement other key renewal =>
        rw [hbody] at h
        simp only [List.mem_cons, reduceCtorEq, false_or, List.not_mem_nil, or_false] at h
        injection h with _ _ hdeadline
        rw [hdeadline]
        rcases admitPacket_cases (event.credit 0) limits event.live object event.now wall with
          ⟨error, _, heq⟩ | ⟨backup, _, ⟨hadmitted, _⟩ | ⟨error, heq⟩⟩
        · exact absurd (congrArg Prod.fst heq ▸ hok) nofun
        · exact lt_of_admitBody hbody hadmitted
        · exact absurd (congrArg Prod.fst heq ▸ hok) nofun
      | watchChallenge | other =>
        rw [hbody] at h
        simp at h
    · cases h
  | _ =>
    -- no other call joins
    rw [hcall] at h
    simp at h

end OriginLimits
end Mewtual.Voice
