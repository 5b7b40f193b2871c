import Mewtual.Lib.Run
import Mewtual.Epoch.Restart
import Mewtual.Epoch.RepairBinding

/-!
# The registry epoch unit

One restart unit of a registry bucket: the lifecycle gate, the receipt book, the receipt
whose checkpoint opened the epoch, whether the unit is adopting a distant checkpoint, and
the binding of its latest repair. The unit routes a delivered receipt to the opening check,
to ordinary sealing, or to checkpoint adoption.

The replicated document itself is left out: its accepted operations are those of the gate,
and the content of a checkpoint seed is checked by a parameter.

Main definitions:

- {lit}`RegistryEpoch`: the unit.
- {lit}`RegistryEpoch.sealReceipt`: where a delivered receipt goes.
- {lit}`RegistryEpoch.step`: one operation on a unit.
-/

namespace Mewtual

/-! ## Identifiers -/

/-- The first sixteen bytes of a hash. -/
def firstHalf (hash : Hash32) : Fixed 16 := hash.extractLsb' 128 128

/-- Identifier of the deterministic epoch-zero document. -/
def epochZeroId [Crypto] (docType : DocType) (logicalKey : Bytes) : Fixed 16 :=
  firstHalf (hashParts "catcoms-doc-epoch0:v1" [putU64 docType.tag.toUInt64, logicalKey])

/-- Deterministic successor document id selected by a close record. -/
def epochId [Crypto] (docType : DocType) (logicalKey : Bytes) (checkpointEpoch : UInt64)
    (closeRecordHash : Hash32) : Fixed 16 :=
  firstHalf (hashParts "catcoms-doc-epoch:v1" [putU64 docType.tag.toUInt64, logicalKey,
    putU64 checkpointEpoch, fixedBytes closeRecordHash])

/-- The logical document of one registry bucket. -/
def registryDocument [Crypto] (serverId : Bytes) (bucket : UInt8) :
    Except ReplError LogicalDocument :=
  LogicalDocument.new serverId .docRegistry
    (fixedBytes (hashParts "catcoms-registry-key:v1" [serverId, putU64 bucket.toUInt64]))

/-- The content checks of a seed: its raw change, and the projection it opens with. -/
structure SeedFormat where
  validateChange : VerifiedReceipt → UInt64 → Bytes → Except ReplError Unit
  validateProjection : VerifiedReceipt → UInt64 → Bytes → Except ReplError Unit

/-! ## The unit -/

/-- One restart unit of a registry bucket. -/
structure RegistryEpoch where
  logical : LogicalDocument
  gate : EpochGate
  receipts : ReceiptBook
  opening : Option Receipt
  adopting : Bool
  repairBinding : Option RepairBinding
  deriving DecidableEq

namespace RegistryEpoch

/-- Start the deterministic epoch-zero bucket of a logical document. -/
def epochZero [Crypto] (logical : LogicalDocument) (owner : DeviceId) : RegistryEpoch where
  logical := logical
  gate := .new logical (epochZeroId .docRegistry logical.logicalKey) 0 owner
  receipts := .empty
  opening := none
  adopting := false
  repairBinding := none

/-- Start the epoch-zero bucket under the group's current owner. -/
def new [Crypto] (group : OwnerAuthority) (bucket : UInt8) : Except ReplError RegistryEpoch :=
  match group.designatedCommitter with
  | none => .error .epochAuthority
  | some owner => do
    let logical ← registryDocument group.groupId bucket
    pure (epochZero logical owner)

/-- The epoch a verified receipt's seed opens, once the seed passes its checks. -/
def verifyCheckpoint [Crypto] (format : SeedFormat) (verified : VerifiedReceipt)
    (bucket : UInt8) (seed : Bytes) : Except ReplError UInt64 :=
  match checkedAdd verified.closedEpoch 1 with
  | none => .error .epochBound
  | some epoch => do
    format.validateChange verified epoch seed
    let document ← registryDocument verified.document.serverId bucket
    if verified.document ≠ document ∨ epoch > maxRegistryEpoch then throw .epochScope
    format.validateProjection verified epoch seed
    pure epoch

/-- The unit a receipt's checkpoint opens: its book has ingested that one receipt. -/
def opened [Crypto] (receipt : Receipt) (epoch : UInt64) (owner : DeviceId) : RegistryEpoch where
  logical := receipt.document
  gate := .new receipt.document
    (epochId receipt.document.docType receipt.document.logicalKey epoch receipt.closeRecordHash)
    epoch owner
  receipts := (ReceiptBook.empty.ingestVerified receipt).2
  opening := some receipt
  adopting := false
  repairBinding := none

/-- Construct a separately owned successor from a current-owner receipt and its exact seed. -/
def fromCheckpoint [Crypto] (format : SeedFormat) (group : OwnerAuthority) (bucket : UInt8)
    (receipt : Receipt) (expectedTenureStart : UInt64) (seed : Bytes) :
    Except ReplError RegistryEpoch := do
  discard (receipt.verifyCurrentOwner group expectedTenureStart)
  match group.designatedCommitter with
  | none => throw .epochAuthority
  | some owner =>
    let logical ← registryDocument group.groupId bucket
    if receipt.document ≠ logical then throw .epochScope
    let verified ← receipt.restoreVerifiedFromVault
    let epoch ← verifyCheckpoint format verified bucket seed
    discard (ReceiptBook.empty.ingestVerified receipt).1
    pure (opened receipt epoch owner)

def phase (unit : RegistryEpoch) : EpochPhase := unit.gate.inner.phase

/-- The unit with another gate and book. -/
@[simps] def updated (unit : RegistryEpoch) (gate : EpochGate) (receipts : ReceiptBook) :
    RegistryEpoch :=
  { unit with gate := gate, receipts := receipts }

/-- The unit with another gate and book, in the given mode. -/
@[simps] def selecting (unit : RegistryEpoch) (gate : EpochGate) (receipts : ReceiptBook)
    (adopting : Bool) : RegistryEpoch :=
  { unit with gate := gate, receipts := receipts, adopting := adopting }

@[simp] theorem selecting_self (unit : RegistryEpoch) :
    unit.selecting unit.gate unit.receipts unit.adopting = unit := rfl

/-- True only for this exact opening receipt, never a later epoch or a fault. -/
def OpenedBy (unit : RegistryEpoch) (receipt : Receipt) : Prop :=
  unit.opening = some receipt ∧ (unit.phase = .opened ∨ unit.phase = .closing)

instance (unit : RegistryEpoch) (receipt : Receipt) : Decidable (unit.OpenedBy receipt) :=
  inferInstanceAs (Decidable (_ ∧ _))

def repairState [Crypto] (unit : RegistryEpoch) : Option SourceRepairState :=
  unit.repairBinding.bind fun binding =>
    binding.state unit.receipts unit.phase unit.opening unit.adopting

/-- Whether the latest repair still requires its selected checkpoint to be installed. -/
def repairInstallPending [Crypto] (unit : RegistryEpoch) : Bool :=
  unit.repairState.any (·.installPending)

/-- The answer of an outstanding repair to a delivered receipt. -/
def pendingAdmission [Crypto] (unit : RegistryEpoch) (receipt : Receipt) :
    Option (Except ReplError ReceiptIngest) :=
  unit.repairBinding.bind fun binding =>
    binding.pendingAdmission unit.receipts unit.phase unit.opening unit.adopting receipt

/-! ## Receipts -/

/-- Update the owner of the gate to the group's current one. -/
def refreshOwner (unit : RegistryEpoch) (group : OwnerAuthority) :
    Except ReplError Unit × RegistryEpoch :=
  if group.groupId ≠ unit.logical.serverId then (.error .epochScope, unit)
  else match group.designatedCommitter with
    | none => (.error .epochAuthority, unit)
    | some owner => (.ok (), unit.updated (unit.gate.updateOwner owner) unit.receipts)

/-- Select a received checkpoint while retaining and sealing the full local source. -/
def beginCheckpointAdoption [Crypto] (unit : RegistryEpoch) (receipt : Receipt)
    (group : OwnerAuthority) (expectedTenureStart : UInt64) :
    Except ReplError ReceiptIngest × RegistryEpoch :=
  match receipt.verifyCurrentOwner group expectedTenureStart with
  | .error error => (.error error, unit)
  | .ok _ =>
    if receipt.document ≠ unit.logical then (.error .epochScope, unit)
    else if receipt.closedEpoch ≥ maxRegistryEpoch then (.error .epochBound, unit)
    else match unit.pendingAdmission receipt with
      | some outcome => (outcome, unit)
      | none =>
        if unit.OpenedBy receipt then (.ok .duplicate, unit)
        else
          match unit.receipts.ingestAdoption receipt group expectedTenureStart unit.gate
              unit.opening with
          | (.error error, gate, book) => (.error error, unit.updated gate book)
          | (.ok outcome, gate, book) =>
            (.ok outcome, unit.selecting gate book
              (unit.adopting || decide (outcome ≠ .stale ∧ unit.phase ≠ .fault)))

/-- A receipt that is not part of an adoption: the opening check, or ordinary sealing. -/
def sealOrdinary [Crypto] (unit : RegistryEpoch) (receipt : Receipt) (group : OwnerAuthority)
    (expectedTenureStart : UInt64) : Except ReplError ReceiptIngest × RegistryEpoch :=
  match unit.opening.filter (fun opening => receipt.closedEpoch = opening.closedEpoch) with
  | some opening =>
    let (result, gate, book) := unit.receipts.checkOpeningReceipt receipt opening group
      expectedTenureStart unit.gate
    (result, unit.updated gate book)
  | none =>
    let (result, gate, book) := unit.receipts.ingestAndSeal receipt group
      expectedTenureStart unit.gate
    (result.map Prod.fst, unit.updated gate book)

/-- Verify owner and tenure and seal admission atomically. -/
def sealReceipt [Crypto] (unit : RegistryEpoch) (receipt : Receipt) (group : OwnerAuthority)
    (expectedTenureStart : UInt64) : Except ReplError ReceiptIngest × RegistryEpoch :=
  if unit.repairInstallPending then
    unit.beginCheckpointAdoption receipt group expectedTenureStart
  else match unit.refreshOwner group with
    | (.error error, unit) => (.error error, unit)
    | (.ok (), unit) =>
      if unit.adopting then unit.beginCheckpointAdoption receipt group expectedTenureStart
      else unit.sealOrdinary receipt group expectedTenureStart

/-! ## Runs -/

/-- One operation on a unit. -/
inductive Event where
  | admitLocal (op : AdmittedOperation)
  | admitInbound (op : AdmittedOperation)
  | updateOwner (owner : DeviceId)
  | sealReceipt (receipt : Receipt) (group : OwnerAuthority) (expectedTenureStart : UInt64)
  | adopt (receipt : Receipt) (group : OwnerAuthority) (expectedTenureStart : UInt64)

/-- The unit after one operation, whether or not it was accepted. -/
def step [Crypto] (unit : RegistryEpoch) : Event → RegistryEpoch
  | .admitLocal op => unit.updated (unit.gate.admitLocal op).2 unit.receipts
  | .admitInbound op => unit.updated (unit.gate.admitInbound op).2 unit.receipts
  | .updateOwner owner => unit.updated (unit.gate.updateOwner owner) unit.receipts
  | .sealReceipt receipt group start => (unit.sealReceipt receipt group start).2
  | .adopt receipt group start => (unit.beginCheckpointAdoption receipt group start).2

/-- The receipt itself, if current-owner verification accepts it. -/
def verifiedReceipt [Crypto] (receipt : Receipt) (group : OwnerAuthority)
    (expectedTenureStart : UInt64) : Option Receipt :=
  match receipt.verifyCurrentOwner group expectedTenureStart with
  | .ok _ => some receipt
  | .error _ => none

/-- The verified receipt an operation supplies. -/
def Event.supplied [Crypto] : Event → Option Receipt
  | .sealReceipt receipt group start => verifiedReceipt receipt group start
  | .adopt receipt group start => verifiedReceipt receipt group start
  | _ => none

/-- The verified receipts of a run in order of delivery. -/
def supplied [Crypto] (events : List Event) : List Receipt := events.filterMap Event.supplied

end RegistryEpoch

end Mewtual
