import Mewtual.Epoch.Primitives
import Mewtual.Lib.TokenBucket
import Mewtual.Lib.UpdateFirst

/-!
# Limits of voice origins

One table for a group that limits what each member may cause: buckets for the traffic it requests
and originates, the joins it has made in the last minute, and the key each join is bound to. A row
is forgotten once it is old and binds nothing.

A binding is pinned by the leases of native calls. A lease is revoked from outside at any time, so
that every pruning has its own view of which leases are live. Whether the shared pool grants the
memory of a new row is a parameter of the call.

Main definitions:

- {lit}`Record.join`, {lit}`Record.renew`, {lit}`Record.protect`: what is done to a row.
- {lit}`OriginLimits.admitPacket`: the admission of a packet, all or nothing.
-/

namespace Mewtual.Voice

open Std

/-- Why a call is refused. -/
inductive VoiceError where
  | malformed | bounds | signature | scope | freshness | unauthorized | signing | capacity | replay
  | reservation | retryMismatch | rateLimited
deriving DecidableEq, Repr

abbrev Nonce := Fixed 32

abbrev KeyRef := Fixed 32

/-- The identity of a shared revocation. -/
abbrev CallLease := Nat

def retainMs : Nat := 60000

def maxBindings : Nat := 4

def maxPins : Nat := 16

def clockSkewMs : Nat := 5000

def maxDelegationLifetimeMs : Nat := 30000

def maxRemoteDelegationRemainingMs : Nat := maxDelegationLifetimeMs + 2 * clockSkewMs

/-- The two kinds of traffic. -/
inductive Traffic where
  | room | setup
deriving DecidableEq, Repr

/-! ## Rows -/

/-- A join that is counted against the rate. -/
structure SeenJoin where
  join : Nonce
  keyRef : KeyRef
  created : Nat
  renewal : Nat
deriving DecidableEq, Repr

/-- The key of a join, while something protects it. -/
structure Binding where
  join : Nonce
  keyRef : KeyRef
  deadline : Nat
  pins : List CallLease
  renewal : Nat
deriving DecidableEq, Repr

/-- The row of a member. -/
structure Record where
  touched : Nat
  requester : TokenBucket
  room : TokenBucket
  setup : TokenBucket
  joins : List SeenJoin
  bindings : List Binding
deriving DecidableEq, Repr

namespace Record

/-- A row that has spent nothing. -/
def fresh (now : Nat) : Record where
  touched := now
  requester := .new now 40
  room := .new now 8
  setup := .new now 40
  joins := []
  bindings := []

/-- The row was used. -/
def touch (now : Nat) (record : Record) : Record :=
  { record with touched := max record.touched now }

/-- Drop revoked pins, and then the bindings that nothing protects. -/
def pruned (live : CallLease → Bool) (now : Nat) (record : Record) : Record :=
  { record with
    bindings := (record.bindings.map fun binding =>
        { binding with pins := binding.pins.filter live }).filter fun binding =>
      decide (binding.deadline > now) || !binding.pins.isEmpty }

/-- What is kept of a row. -/
def collected (live : CallLease → Bool) (now : Nat) (record : Record) : Option Record :=
  if now - record.touched < retainMs ∨ (record.pruned live now).bindings ≠ [] then
    some (record.pruned live now)
  else none

/-- Charge a request. -/
def spendRequester (now : Nat) (record : Record) : Except VoiceError Unit × Record :=
  let spent := record.requester.spend 20 40 now
  (if spent.1 then .ok () else .error .rateLimited, { record with requester := spent.2 })

/-- Charge traffic of a kind. -/
def spendTraffic (kind : Traffic) (now : Nat) (record : Record) :
    Except VoiceError Unit × Record :=
  match kind with
  | .room =>
    let spent := record.room.spend 2 8 now
    (if spent.1 then .ok () else .error .rateLimited, { record with room := spent.2 })
  | .setup =>
    let spent := record.setup.spend 20 40 now
    (if spent.1 then .ok () else .error .rateLimited, { record with setup := spent.2 })

/-- The joins of the last minute. -/
def recentJoins (now : Nat) (record : Record) : Record :=
  { record with joins := record.joins.filter fun seen => decide (now - seen.created < retainMs) }

/-- Bind a join whose rate entry may still be there. -/
def bind (join : Nonce) (keyRef : KeyRef) (now deadline : Nat) (record : Record) :
    Except VoiceError Unit × Record :=
  let seen := record.joins.find? fun seen => seen.join = join
  if seen.any fun seen => seen.keyRef ≠ keyRef then (.error .unauthorized, record)
  else if seen.isNone ∧ record.joins.length ≥ 4 then (.error .rateLimited, record)
  else if record.bindings.length ≥ maxBindings then (.error .capacity, record)
  else
    (.ok (), { record with
      joins := if seen.isNone then record.joins ++ [⟨join, keyRef, now, 0⟩] else record.joins
      bindings :=
        record.bindings ++ [⟨join, keyRef, deadline, [], (seen.map SeenJoin.renewal).getD 0⟩] })

/-- A join that is bound is only renewed: its deadline moves, but not its rate entry. -/
def join (join : Nonce) (keyRef : KeyRef) (now deadline : Nat) (record : Record) :
    Except VoiceError Unit × Record :=
  let recent := record.recentJoins now
  match recent.bindings.find? fun binding => binding.join = join with
  | some binding =>
    if binding.keyRef ≠ keyRef then (.error .unauthorized, recent)
    else
      (.ok (), { recent with
        bindings := updateFirst (fun binding => binding.join = join)
          (fun binding => { binding with deadline := max binding.deadline deadline })
          recent.bindings })
  | none => recent.bind join keyRef now deadline

/-- Raise the high-water mark of a bound join, and that of its rate entry. -/
def renew (join : Nonce) (keyRef : KeyRef) (sequence : Nat) (record : Record) :
    Except VoiceError Unit × Record :=
  match record.bindings.find? fun binding => binding.join = join ∧ binding.keyRef = keyRef with
  | none => (.error .unauthorized, record)
  | some binding =>
    if sequence = 0 ∨ sequence < binding.renewal then (.error .freshness, record)
    else
      (.ok (), { record with
        bindings := updateFirst (fun binding => binding.join = join ∧ binding.keyRef = keyRef)
          (fun binding => { binding with renewal := sequence }) record.bindings
        joins := updateFirst (fun seen => seen.join = join)
          (fun seen => { seen with renewal := sequence }) record.joins })

/-- Pin a binding to a lease. -/
def protect (join : Nonce) (keyRef : KeyRef) (lease : CallLease) (record : Record) :
    Except VoiceError Unit × Record :=
  match record.bindings.find? fun binding => binding.join = join ∧ binding.keyRef = keyRef with
  | none => (.error .unauthorized, record)
  | some binding =>
    if lease ∈ binding.pins then (.ok (), record)
    else if binding.pins.length ≥ maxPins then (.error .capacity, record)
    else
      (.ok (), { record with
        bindings := updateFirst (fun binding => binding.join = join ∧ binding.keyRef = keyRef)
          (fun binding => { binding with pins := binding.pins ++ [lease] }) record.bindings })

/-- Take a pin back. -/
def retire (join : Nonce) (keyRef : KeyRef) (lease : CallLease) (record : Record) : Record :=
  { record with
    bindings := updateFirst (fun binding => binding.join = join ∧ binding.keyRef = keyRef)
      (fun binding => { binding with pins := binding.pins.filter fun pin => pin ≠ lease })
      record.bindings }

/-- Take back what an admission changed. -/
def restore (backup : Record) (record : Record) : Record :=
  { record with
    room := backup.room
    setup := backup.setup
    joins := backup.joins
    bindings := backup.bindings }

end Record

/-! ## The table -/

/-- The rows of a group. -/
structure OriginLimits where
  records : ExtTreeMap DeviceId Record

namespace OriginLimits

def new : OriginLimits := ⟨∅⟩

def put (limits : OriginLimits) (member : DeviceId) (record : Record) : OriginLimits :=
  ⟨limits.records.insert member record⟩

/-- Expiry without touching any row. -/
def collectExpired (live : CallLease → Bool) (now : Nat) (limits : OriginLimits) : OriginLimits :=
  ⟨limits.records.filterMap fun _ record => record.collected live now⟩

/-- The row of a member, opened if the pool grants its memory. -/
def record (credit : Except VoiceError Unit) (live : CallLease → Bool) (member : DeviceId)
    (now : Nat) (limits : OriginLimits) : Except VoiceError Record × OriginLimits :=
  let collected := limits.collectExpired live now
  match collected.records[member]? with
  | some record => (.ok (record.touch now), collected.put member (record.touch now))
  | none =>
    match credit with
    | .error error => (.error error, collected)
    | .ok () => (.ok (.fresh now), collected.put member (.fresh now))

/-- Act on the row of a member. -/
def act (credit : Except VoiceError Unit) (live : CallLease → Bool) (member : DeviceId) (now : Nat)
    (action : Record → Except VoiceError Unit × Record) (limits : OriginLimits) :
    Except VoiceError Unit × OriginLimits :=
  match limits.record credit live member now with
  | (.error error, limits) => (.error error, limits)
  | (.ok record, limits) => ((action record).1, limits.put member (action record).2)

/-- Charge a member for a request. -/
def requester (credit : Except VoiceError Unit) (live : CallLease → Bool) (member : DeviceId)
    (now : Nat) (limits : OriginLimits) : Except VoiceError Unit × OriginLimits :=
  limits.act credit live member now (Record.spendRequester now)

/-- Charge a member for traffic. -/
def origin (credit : Except VoiceError Unit) (live : CallLease → Bool) (member : DeviceId)
    (kind : Traffic) (now : Nat) (limits : OriginLimits) : Except VoiceError Unit × OriginLimits :=
  limits.act credit live member now (Record.spendTraffic kind now)

/-- Join, if the delegation ends in time. -/
def join (credit : Except VoiceError Unit) (live : CallLease → Bool) (member : DeviceId)
    (join : Nonce) (keyRef : KeyRef) (now delegationUntil : Nat) (limits : OriginLimits) :
    Except VoiceError Unit × OriginLimits :=
  if delegationUntil ≤ now ∨ delegationUntil > saturatingAdd now maxRemoteDelegationRemainingMs then
    (.error .freshness, limits)
  else limits.act credit live member now (Record.join join keyRef now delegationUntil)

/-- Renew a join. -/
def renewal (credit : Except VoiceError Unit) (live : CallLease → Bool) (member : DeviceId)
    (join : Nonce) (keyRef : KeyRef) (sequence now : Nat) (limits : OriginLimits) :
    Except VoiceError Unit × OriginLimits :=
  limits.act credit live member now (Record.renew join keyRef sequence)

/-- Pin a join to a lease that is live. -/
def protectPair (credit : Except VoiceError Unit) (atEntry live : CallLease → Bool)
    (member : DeviceId) (join : Nonce) (keyRef : KeyRef) (lease : CallLease) (now : Nat)
    (limits : OriginLimits) : Except VoiceError Unit × OriginLimits :=
  if atEntry lease = false then (.error .unauthorized, limits)
  else limits.act credit live member now (Record.protect join keyRef lease)

/-- Take the pin of a lease back. -/
def retirePair (member : DeviceId) (join : Nonce) (keyRef : KeyRef) (lease : CallLease)
    (limits : OriginLimits) : OriginLimits :=
  ⟨limits.records.modify member (Record.retire join keyRef lease)⟩

/-- Open the rows of the members of an exchange; the first that the pool refuses ends it. -/
def prepareMembers (credit : Nat → Except VoiceError Unit) (live : Nat → CallLease → Bool)
    (now : Nat) : Nat → List DeviceId → OriginLimits → Except VoiceError Unit × OriginLimits
  | _, [], limits => (.ok (), limits)
  | turn, member :: members, limits =>
    match limits.record (credit turn) (live turn) member now with
    | (.error error, limits) => (.error error, limits)
    | (.ok _, limits) => prepareMembers credit live now (turn + 1) members limits

/-- Open the rows of an exchange of at most four members. -/
def prepareExchangeMembers (credit : Nat → Except VoiceError Unit)
    (live : Nat → CallLease → Bool) (members : List DeviceId) (sameResources : Bool) (now : Nat)
    (limits : OriginLimits) : Except VoiceError Unit × OriginLimits :=
  if sameResources = false then (.error .scope, limits)
  else if members.length > 4 then (.error .bounds, limits)
  else prepareMembers credit live now 0 members limits

/-! ## Packets -/

/-- What admission reads of the body of a signed object. -/
inductive Body where
  | announcement (join : Nonce) (keyRef : KeyRef) (renewal : Nat)
  | watchChallenge
  | other
deriving DecidableEq, Repr

/-- What admission reads of a signed object. -/
structure SignedObject where
  issuer : DeviceId
  expires : Nat
  body : Body
deriving DecidableEq, Repr

/-- The traffic that a body is charged as. -/
def Body.traffic : Body → Traffic
  | .announcement .. | .watchChallenge => .room
  | .other => .setup

/-- The end of a delegation on the local clock. -/
def SignedObject.deadline (object : SignedObject) (now wall : Nat) : Nat :=
  saturatingAdd now (saturatingAdd object.expires clockSkewMs - wall)

/-- Charge the traffic of a packet, and bind the join of an announcement. -/
def admitBody (credit : Except VoiceError Unit) (live : Nat → CallLease → Bool)
    (object : SignedObject) (now wall : Nat) (limits : OriginLimits) :
    Except VoiceError Unit × OriginLimits :=
  match limits.origin credit (live 1) object.issuer object.body.traffic now with
  | (.error error, limits) => (.error error, limits)
  | (.ok (), limits) =>
    match object.body with
    | .announcement join keyRef renewal =>
      match limits.join credit (live 2) object.issuer join keyRef now
          (object.deadline now wall) with
      | (.error error, limits) => (.error error, limits)
      | (.ok (), limits) =>
        limits.renewal credit (live 3) object.issuer join keyRef renewal now
    | _ => (.ok (), limits)

/-- All or nothing: a refused packet leaves the allowance and the protection of its issuer, but not
the requester's debit. -/
def admitPacket (credit : Except VoiceError Unit) (live : Nat → CallLease → Bool)
    (object : SignedObject) (now wall : Nat) (limits : OriginLimits) :
    Except VoiceError Unit × OriginLimits :=
  match limits.record credit (live 0) object.issuer now with
  | (.error error, limits) => (.error error, limits)
  | (.ok backup, limits) =>
    match admitBody credit live object now wall limits with
    | (.ok (), limits) => (.ok (), limits)
    | (.error error, limits) =>
      (.error error, ⟨limits.records.modify object.issuer (Record.restore backup)⟩)

end OriginLimits
end Mewtual.Voice
