import Mewtual.Kept.Export

/-!
# Records of retained transfers

A retained transfer is one record that every durable step replaces. It holds the exact plans the
transfer may fetch, the verified chunks, the remaining network allowance and, for a download, the
state of its export. The validators of a single record and of a record with its successor are
given branch by branch.

Five encodings exist. The two oldest have one plan, the others own a set of candidates of which
one is selected and mirrored in the record.

Main results:

- Theorem {lit}`Record.valid_of_validate`: what an accepted record satisfies.
- Theorem {lit}`Record.follows_of_validateSuccessor`: what an accepted step satisfies.
-/

namespace Mewtual
namespace Kept

/-- The encodings of a record. -/
inductive RecordEncoding where
  | v2 | v3 | v4 | downloadV1 | downloadV2
deriving DecidableEq

namespace RecordEncoding

def hasVariants : RecordEncoding → Bool
  | .v4 | .downloadV1 | .downloadV2 => true
  | .v2 | .v3 => false

def isDownload : RecordEncoding → Bool
  | .downloadV1 | .downloadV2 => true
  | .v2 | .v3 | .v4 => false

/-- The fewest candidates of an encoding that has them. -/
def minimum (encoding : RecordEncoding) : Nat := if encoding.isDownload then 1 else 2

end RecordEncoding

/-- Whose transfer it is. -/
structure KeepScope where
  group : Bytes
  device : DeviceId
deriving DecidableEq

def KeepScope.validate (scope : KeepScope) : Except StorageError Unit :=
  if scope.group = [] ∨ scope.group.length > 256 then .error .malformed else .ok ()

/-- The phases of a transfer. -/
inductive KeepPhase where
  | resumable | completed | deleting
deriving DecidableEq

/-! ## Allowances -/

/-- What is left of one grant. -/
structure KeepAllowance where
  requests : UInt32
  pages : UInt32
  bytes : UInt64
  slices : UInt16
deriving DecidableEq

/-- The four things an allowance counts. -/
inductive Resource where
  | requests | pages | bytes | slices
deriving DecidableEq

namespace KeepAllowance

def initialRequests : UInt32 := 131072

def initialSlices : UInt16 := 120

/-- The first allowance of a plan. -/
def initial (plan : KeepPlan) : KeepAllowance :=
  { requests := initialRequests
    pages := initialRequests
    bytes := UInt64.ofNat ((plan.chunks.map fun chunk => chunk.2.toNat).sum * 3 + 16 * 1024 * 1024)
    slices := initialSlices }

/-- Every component is debited, or none. -/
def subtract (allowance grant : KeepAllowance) : Except StorageError KeepAllowance :=
  if grant.requests ≤ allowance.requests ∧ grant.pages ≤ allowance.pages ∧
      grant.bytes ≤ allowance.bytes ∧ grant.slices ≤ allowance.slices then
    .ok { requests := allowance.requests - grant.requests
          pages := allowance.pages - grant.pages
          bytes := allowance.bytes - grant.bytes
          slices := allowance.slices - grant.slices }
  else .error .keepExhausted

/-- No part of an allowance is above another. -/
def atMost (allowance other : KeepAllowance) : Bool :=
  decide (allowance.requests ≤ other.requests) && decide (allowance.pages ≤ other.pages) &&
    decide (allowance.bytes ≤ other.bytes) && decide (allowance.slices ≤ other.slices)

/-- One component as a number. -/
def amount (allowance : KeepAllowance) : Resource → Nat
  | .requests => allowance.requests.toNat
  | .pages => allowance.pages.toNat
  | .bytes => allowance.bytes.toNat
  | .slices => allowance.slices.toNat

theorem atMost_iff {allowance other : KeepAllowance} :
    allowance.atMost other = true ↔ ∀ resource,
      allowance.amount resource ≤ other.amount resource := by
  unfold atMost
  simp only [Bool.and_eq_true, decide_eq_true_eq, UInt32.le_iff_toNat_le, UInt64.le_iff_toNat_le,
    UInt16.le_iff_toNat_le]
  constructor
  · rintro ⟨⟨⟨hrequests, hpages⟩, hbytes⟩, hslices⟩ resource
    cases resource with
    | requests => exact hrequests
    | pages => exact hpages
    | bytes => exact hbytes
    | slices => exact hslices
  · intro h
    exact ⟨⟨⟨h .requests, h .pages⟩, h .bytes⟩, h .slices⟩

/-- A debit is exact in every component. -/
theorem amount_of_subtract {allowance grant left : KeepAllowance}
    (h : allowance.subtract grant = .ok left) (resource : Resource) :
    left.amount resource + grant.amount resource = allowance.amount resource := by
  unfold subtract at h
  split at h
  · rename_i hle
    cases h
    simp only [UInt32.le_iff_toNat_le, UInt64.le_iff_toNat_le, UInt16.le_iff_toNat_le] at hle
    obtain ⟨hrequests, hpages, hbytes, hslices⟩ := hle
    cases resource with
    | requests =>
      simp only [amount, UInt32.toNat_sub_of_le _ _ (UInt32.le_iff_toNat_le.mpr hrequests)]
      omega
    | pages =>
      simp only [amount, UInt32.toNat_sub_of_le _ _ (UInt32.le_iff_toNat_le.mpr hpages)]
      omega
    | bytes =>
      simp only [amount, UInt64.toNat_sub_of_le _ _ (UInt64.le_iff_toNat_le.mpr hbytes)]
      omega
    | slices =>
      simp only [amount, UInt16.toNat_sub_of_le _ _ (UInt16.le_iff_toNat_le.mpr hslices)]
      omega
  · cases h

end KeepAllowance

/-! ## The record -/

/-- A request for another allowance. -/
structure KeepRetry where
  transfer : Hash32
  expectedGrant : UInt64
  request : Fixed 16
deriving DecidableEq

/-- The last retry that was granted. -/
structure KeepRetryReceipt where
  request : KeepRetry
  granted : UInt64
deriving DecidableEq

def maxVariants : Nat := 4

/-- A plan of the content, with the chunks that were verified. -/
structure Candidate where
  plan : KeepPlan
  verified : List Bool
  bad : Bool
deriving DecidableEq

/-- The candidates of a transfer and the one selected. -/
structure Variants where
  candidates : List Candidate
  selected : Nat
  committed : Option Nat
deriving DecidableEq

def Variants.initialFieldsValid (variants : Variants) : Bool :=
  variants.committed.isNone &&
    variants.candidates.all fun candidate => !candidate.bad && candidate.verified.all (!·)

/-- Who owns the transfer: a kept file by its content, a download by its own id. -/
inductive Owner where
  | keep (cid : Cid)
  | download (id : Hash32)
deriving DecidableEq

/-- The durable record of a transfer. -/
structure Record where
  encoding : RecordEncoding
  userPaused : Bool
  blocked : Bool
  intent : UInt64
  scope : KeepScope
  transfer : Hash32
  revision : UInt64
  predecessor : Hash32
  plan : KeepPlan
  listing : Hash32
  phase : KeepPhase
  verified : List Bool
  remaining : KeepAllowance
  exhausted : Bool
  grant : UInt64
  lastRetry : Option KeepRetryReceipt
  variants : Option Variants
  exported : Export
  planned : Option PlannedDestination
deriving DecidableEq

namespace Record

def owner (record : Record) : Owner :=
  if record.encoding.isDownload then .download record.transfer else .keep record.plan.cid

/-- Every plan the transfer owns. -/
def plans (record : Record) : List KeepPlan :=
  match record.variants with
  | some variants => variants.candidates.map Candidate.plan
  | none => [record.plan]

/-- The plan whose chunks are served. -/
def committedPlan (record : Record) : Option KeepPlan :=
  if record.phase ≠ .completed then none
  else
    match record.variants with
    | some variants => do
      let index ← variants.committed
      let candidate ← variants.candidates[index]?
      return candidate.plan
    | none => some record.plan

/-- The largest of the plans' allowances. There is at least one plan. -/
def initialAllowance (record : Record) : KeepAllowance :=
  match record.plans.map KeepAllowance.initial with
  | [] => KeepAllowance.initial record.plan
  | first :: others => others.foldl (fun best other =>
    if best.bytes ≤ other.bytes then other else best) first

def initialFieldsValid (record : Record) : Bool :=
  record.predecessor = 0 &&
    (match record.encoding with
      | .v2 => record.userPaused && record.intent = 0
      | .v3 | .v4 | .downloadV1 => !record.userPaused && record.intent = 1
      | .downloadV2 => false) &&
    record.exported = .none && record.planned.isNone && !record.blocked &&
    record.phase = .resumable && record.grant = 1 && !record.exhausted &&
    !record.verified.any id && record.remaining = record.initialAllowance &&
    record.variants.all Variants.initialFieldsValid

/-! ## Validating one record -/

/-- The check of one candidate against the mirrored plan and the candidate before it. -/
def checkCandidate (record : Record) (variants : Variants) (entry : Candidate × Nat) :
    Except StorageError Unit := do
  let _ ← entry.1.plan.charge
  if entry.1.plan.cid ≠ record.plan.cid ∨
      entry.1.verified.length ≠ entry.1.plan.chunks.length ∨
      (entry.2 ≠ 0 ∧ (variants.candidates[entry.2 - 1]?).any
        fun prior => prior.plan.version ≥ entry.1.plan.version) then
    throw .malformed

/-- The variants of a record are in order. -/
def validateVariants (record : Record) : Except StorageError Unit :=
  match record.variants with
  | none => if record.encoding.hasVariants then .error .malformed else .ok ()
  | some variants => do
    if ¬ record.encoding.hasVariants ∨ variants.candidates.length < record.encoding.minimum ∨
        variants.candidates.length > maxVariants ∨
        variants.candidates.length ≤ variants.selected ∨
        (variants.committed.any fun index => variants.candidates.length ≤ index) then
      throw .malformed
    variants.candidates.zipIdx.forM (record.checkCandidate variants)
    if some record.plan ≠ (variants.candidates[variants.selected]?).map Candidate.plan ∨
        some record.verified ≠ (variants.candidates[variants.selected]?).map Candidate.verified ∨
        (record.phase = .resumable ∧ variants.committed.isSome) ∨
        (record.phase = .completed ∧ variants.committed.isNone) ∨
        (variants.committed.any fun index => (variants.candidates[index]?).any
          fun candidate => candidate.verified.any (!·)) then
      throw .malformed

/-- Only a completed download of the newest encoding has a journal. -/
def validateJournal (record : Record) : Except StorageError Unit :=
  match record.exported with
  | .none => .ok ()
  | .writing journal =>
    if record.encoding ≠ .downloadV2 ∨ record.phase = .resumable ∨ ¬ journal.valid ∨
        journal.writtenChunks.toNat > record.plan.chunks.length then
      .error .malformed
    else .ok ()
  | .published journal =>
    if record.encoding ≠ .downloadV2 ∨ record.phase = .resumable ∨ ¬ journal.valid ∨
        journal.writtenChunks.toNat > record.plan.chunks.length ∨
        journal.writtenChunks.toNat ≠ record.plan.chunks.length ∨ journal.halt.isSome ∨
        record.userPaused then
      .error .malformed
    else .ok ()

/-- The export of a record fits its phase. -/
def validateExport (record : Record) : Except StorageError Unit :=
  if record.planned.any fun planned => record.encoding ≠ .downloadV2 ||
      record.exported ≠ .none || !planned.valid then
    .error .malformed
  else record.validateJournal

/-- The intent counter of an encoding. -/
def badIntent (record : Record) : Bool :=
  match record.encoding with
  | .v2 => !record.userPaused || record.intent ≠ 0 || record.blocked
  | .v3 | .v4 | .downloadV1 | .downloadV2 =>
    record.intent = 0 || decide (record.intent > record.revision)

def badReceipt (record : Record) : Bool :=
  record.lastRetry.any fun receipt => receipt.request.transfer ≠ record.transfer ||
    checkedAdd receipt.request.expectedGrant 1 ≠ some receipt.granted ||
    receipt.granted ≠ record.grant

/-- Everything a record must satisfy. -/
def validate (record : Record) : Except StorageError Unit := do
  record.scope.validate
  let _ ← record.plan.charge
  record.validateVariants
  record.validateExport
  if record.revision = 0 ∨ record.badIntent ∨ record.grant = 0 ∨ record.grant > record.revision ∨
      (record.revision = 1 ∧ ¬ record.initialFieldsValid) ∨
      record.verified.length ≠ record.plan.chunks.length ∨
      ¬ record.remaining.atMost record.initialAllowance ∨
      (¬ record.encoding.hasVariants ∧ record.phase = .completed ∧ record.verified.any (!·)) ∨
      record.badReceipt ∨ ¬ (record.grant = 1 ↔ record.lastRetry.isNone) then
    throw .malformed

/-- Everything a first record must satisfy. -/
def validateInitial (record : Record) : Except StorageError Unit := do
  record.validate
  if record.revision ≠ 1 ∨ ¬ record.initialFieldsValid then throw .malformed

end Record

/-! ## Encodings -/

def recordLimit : Nat := 80 * 1024

def variantRecordLimit : Nat := 400 * 1024

/-- The domain each encoding begins with. -/
def RecordEncoding.domain : RecordEncoding → Bytes
  | .v2 => asciiBytes "mewtual/kept-transfer/v2"
  | .v3 => asciiBytes "mewtual/kept-transfer/v3"
  | .v4 => asciiBytes "mewtual/kept-transfer/v4"
  | .downloadV1 => asciiBytes "mewtual/download-transfer/v1"
  | .downloadV2 => asciiBytes "mewtual/download-transfer/v2"

/-- An unknown domain is refused. -/
def RecordEncoding.ofDomain (bytes : Bytes) : Option RecordEncoding :=
  [RecordEncoding.v2, .v3, .v4, .downloadV1, .downloadV2].find? fun encoding =>
    encoding.domain = bytes

def RecordEncoding.slotLimit (encoding : RecordEncoding) : Nat :=
  if encoding.hasVariants then variantRecordLimit else recordLimit

/-- The bytes of an allowance. -/
def KeepAllowance.put (allowance : KeepAllowance) : Bytes :=
  putU32 allowance.requests ++ (putU32 allowance.pages ++ (putU64 allowance.bytes
    ++ putU16 allowance.slices))

/-- Read an allowance. -/
def KeepAllowance.get : Reader StorageError KeepAllowance := do
  let requests ← orMalformed getU32
  let pages ← orMalformed getU32
  let bytes ← orMalformed getU64
  let slices ← orMalformed getU16
  pure ⟨requests, pages, bytes, slices⟩

def KeepPhase.tag : KeepPhase → UInt8
  | .resumable => 1
  | .completed => 2
  | .deleting => 3

def KeepPhase.get : Reader StorageError KeepPhase := do
  let tag ← orMalformed getU8
  if tag = 1 then pure .resumable
  else if tag = 2 then pure .completed
  else if tag = 3 then pure .deleting
  else throw .malformed

/-- The transfer of a receipt is the record's own and is not written. -/
def putRetry : Option KeepRetryReceipt → Bytes
  | none => putU8 0
  | some receipt => putU8 1 ++ (framed (fixedBytes receipt.request.request)
      ++ (putU64 receipt.request.expectedGrant ++ putU64 receipt.granted))

/-- Read an optional retry receipt. -/
def getRetry (transfer : Hash32) : Reader StorageError (Option KeepRetryReceipt) := do
  let tag ← orMalformed getU8
  if tag = 0 then pure none
  else if tag = 1 then do
    let request ← getArray .malformed 16
    let expectedGrant ← orMalformed getU64
    let granted ← orMalformed getU64
    pure (some ⟨⟨transfer, expectedGrant, request⟩, granted⟩)
  else throw .malformed

namespace Candidate

/-- The bytes of a candidate. -/
def put (candidate : Candidate) : Bytes :=
  framed candidate.plan.encode ++ (putBitmap candidate.verified ++ putU8 (putBit candidate.bad))

def get : Reader StorageError Candidate := do
  let encoded ← orMalformed getBytes
  let plan ← Reader.check (KeepPlan.decode encoded)
  let verified ← getBitmap plan.chunks.length
  let bad ← getBit
  pure ⟨plan, verified, bad⟩

end Candidate

namespace Variants

/-- No winner is written as zero. -/
def winner : Option Nat → UInt8
  | none => 0
  | some index => UInt8.ofNat (index + 1)

/-- The bytes of variants. -/
def put (variants : Variants) : Bytes :=
  putU8 (UInt8.ofNat variants.candidates.length) ++ (putU8 (UInt8.ofNat variants.selected)
    ++ (putU8 (winner variants.committed) ++ variants.candidates.flatMap Candidate.put))

def get (minimum : Nat) : Reader StorageError Variants := do
  let count ← orMalformed getU8
  if count.toNat < minimum ∨ count.toNat > maxVariants then throw .malformed
  let selected ← orMalformed getU8
  let winner ← orMalformed getU8
  let candidates ← Reader.times Candidate.get count.toNat
  pure ⟨candidates, selected.toNat, if winner = 0 then none else some (winner.toNat - 1)⟩

end Variants

namespace Record

def slotLimit (record : Record) : Nat := record.encoding.slotLimit

/-- The fields the oldest encoding does not have. -/
def putIntent (record : Record) : Bytes :=
  if record.encoding = .v2 then []
  else putU8 (putBit record.userPaused) ++ (putU64 record.intent ++ putU8 (putBit record.blocked))

def getIntent (encoding : RecordEncoding) : Reader StorageError (Bool × UInt64 × Bool) :=
  -- The former manual-only format cannot tell a pause from a stop.
  if encoding = .v2 then pure (true, 0, false)
  else do
    let userPaused ← getBit
    let intent ← orMalformed getU64
    let blocked ← getBit
    pure (userPaused, intent, blocked)

def putVariants : Option Variants → Bytes
  | none => []
  | some variants => variants.put

def getVariants (encoding : RecordEncoding) : Reader StorageError (Option Variants) :=
  if encoding.hasVariants then do
    let variants ← Variants.get encoding.minimum
    pure (some variants)
  else pure none

def putPlanned : Option PlannedDestination → Bytes
  | none => putU8 0
  | some planned => putU8 1 ++ planned.put

def getPlanned : Reader StorageError (Option PlannedDestination) := do
  let tag ← orMalformed getU8
  if tag = 0 then pure none
  else if tag = 1 then do
    let planned ← PlannedDestination.get
    pure (some planned)
  else throw .malformed

def putExport (record : Record) : Bytes :=
  if record.encoding = .downloadV2 then record.exported.put ++ putPlanned record.planned else []

def getExport (encoding : RecordEncoding) :
    Reader StorageError (Export × Option PlannedDestination) :=
  if encoding = .downloadV2 then do
    let exported ← Export.get
    let planned ← getPlanned
    pure (exported, planned)
  else pure (.none, none)

/-- The bytes of a record. -/
def encode (record : Record) : Bytes :=
  framed record.encoding.domain ++ (framed record.scope.group ++ (putHash record.scope.device
    ++ (putHash record.transfer ++ (putU64 record.revision ++ (putHash record.predecessor
    ++ (framed record.plan.encode ++ (putHash record.listing ++ (putU8 record.phase.tag
    ++ (putBitmap record.verified ++ (record.remaining.put ++ (putU8 (putBit record.exhausted)
    ++ (putU64 record.grant ++ (putRetry record.lastRetry ++ (record.putIntent
    ++ (putVariants record.variants ++ record.putExport)))))))))))))))

/-- The fields behind the domain; {lit}`size` is the length of the whole input. -/
def getFields (size : Nat) (encoding : RecordEncoding) : Reader StorageError Record := do
  if size + 40 > encoding.slotLimit then throw .blobSizeLimit
  let group ← orMalformed getBytes
  if group = [] ∨ group.length > 256 then throw .malformed
  let device ← getHash
  let transfer ← getHash
  let revision ← orMalformed getU64
  let predecessor ← getHash
  let encoded ← orMalformed getBytes
  let plan ← Reader.check (KeepPlan.decode encoded)
  let listing ← getHash
  let phase ← KeepPhase.get
  let verified ← getBitmap plan.chunks.length
  let remaining ← KeepAllowance.get
  let exhausted ← getBit
  let grant ← orMalformed getU64
  let lastRetry ← getRetry transfer
  let (userPaused, intent, blocked) ← getIntent encoding
  let variants ← getVariants encoding
  let (exported, planned) ← getExport encoding
  pure { encoding, userPaused, blocked, intent, scope := ⟨group, device⟩, transfer, revision,
         predecessor, plan, listing, phase, verified, remaining, exhausted, grant, lastRetry,
         variants, exported, planned }

/-- Read a record of a size. -/
def get (size : Nat) : Reader StorageError Record := do
  let domain ← orMalformed getBytes
  match RecordEncoding.ofDomain domain with
  | none => throw .malformed
  | some encoding => getFields size encoding

/-- Decode a record and check it. -/
def decode (bytes : Bytes) : Except StorageError Record := do
  if bytes.length + 40 > variantRecordLimit then throw .blobSizeLimit
  let record ← (get bytes.length).whole .malformed bytes
  record.validate
  pure record

/-! ## Successors -/

def digest [Blake3] (record : Record) : Hash32 := Blake3.blake3 record.encode

/-- The next revision, which names its predecessor and leaves the old encodings behind. -/
def successor [Blake3] (record : Record) : Except StorageError Record :=
  match checkedAdd record.revision 1 with
  | none => .error .malformed
  | some revision =>
    .ok { record with
      revision := revision
      predecessor := record.digest
      encoding := if record.encoding.hasVariants then record.encoding else .v3
      intent := if record.encoding = .v2 then 1 else record.intent }

/-- The edges that change the encoding of a download. -/
def upgradesForExport (record next : Record) : Bool :=
  record.encoding = .downloadV1 && next.encoding = .downloadV2 && record.exported = .none &&
    record.planned.isNone &&
    match next.exported with
    | .writing _ => true
    | .none => next.planned.isSome
    | .published _ => false

/-- How variants may change. -/
def validateVariantSuccessor (record next : Record) : Except StorageError Unit :=
  match record.variants, next.variants with
  | none, none => .ok ()
  | some old, some new =>
    if old.candidates.length ≠ new.candidates.length ∨
        ((old.candidates.zip new.candidates).any fun pair =>
          pair.1.plan ≠ pair.2.plan || (pair.1.bad && !pair.2.bad) ||
            (pair.1.verified.zip pair.2.verified).any fun bits => bits.1 && !bits.2) ∨
        (old.committed ≠ new.committed ∧
          (old.selected ≠ new.selected ∨ new.committed ≠ some new.selected ∨
            (new.candidates[new.selected]?).any fun candidate => candidate.verified.any (!·))) ∨
        (old.selected ≠ new.selected ∧ record.phase ≠ next.phase) then
      .error .malformed
    else .ok ()
  | _, _ => .error .malformed

/-- A planned destination is set while there is no journal and retired by the export that was
made from it. -/
def allowsPlanned (record next : Record) : Bool :=
  if record.planned = next.planned then true
  else if record.phase = .deleting || next.phase = .deleting then false
  else
    match record.planned, next.planned with
    | _, some _ => record.exported = .none && next.exported = .none
    | some planned, none => record.exported = .none &&
        match next.exported with
        | .writing journal => planned.matchesJournal journal
        | _ => false
    | none, none => true

/-- How an export may change. -/
def allowsExport (record next : Record) : Bool :=
  let intentChanged := next.intent ≠ record.intent
  let completed := record.phase = .completed && next.phase = .completed
  if record.phase = .deleting || next.phase = .deleting then next.exported = record.exported
  else
    match record.exported, next.exported with
    | .none, .none => true
    | .none, .writing journal => completed && next.encoding = .downloadV2 &&
        journal.writtenChunks = 0 && journal.halt.isNone
    | .writing old, .writing new => completed && old.sameDestination new &&
        (old.halt.isNone || new.halt.isSome || intentChanged)
    | .writing old, .published new => completed && old.sameDestination new &&
        old.finalLeaf = new.finalLeaf && old.writtenChunks = new.writtenChunks &&
        old.writtenBytes = new.writtenBytes && new.halt.isNone
    | .writing _, .none | .published _, .none => completed && intentChanged
    | .published old, .published new => old = new
    | .published _, .writing _ | .none, .published _ => false

/-- An export changes only as it may. -/
def validateExportSuccessor (record next : Record) : Except StorageError Unit :=
  if record.allowsPlanned next && record.allowsExport next then .ok () else .error .malformed

/-- The intent counter of a successor is not the one the step asks for. -/
def badIntentStep (record next : Record) : Except StorageError Bool :=
  if record.encoding = .v2 ∧ next.encoding = .v2 then .ok (next.intent ≠ record.intent)
  else if next.userPaused ≠ record.userPaused ∨ (record.blocked ∧ ¬ next.blocked) ∨
      record.encoding = .v2 then
    match checkedAdd record.intent 1 with
    | none => .error .malformed
    | some intent => .ok (next.intent ≠ intent)
  else .ok (next.intent ≠ record.intent && some next.intent ≠ checkedAdd record.intent 1)

/-- The parts of a record that no step changes, or changes in one direction only. -/
def breaksIdentity (record next : Record) : Bool :=
  next.scope ≠ record.scope || next.transfer ≠ record.transfer ||
    (record.variants.isNone && next.plan ≠ record.plan) || next.listing ≠ record.listing ||
    (record.variants.isNone && (record.verified.zip next.verified).any fun bits =>
      bits.1 && !bits.2) ||
    (record.phase = .deleting && next.phase ≠ .deleting) ||
    (record.phase = .completed && next.phase = .resumable)

/-- Within a grant the allowance only shrinks; a new grant needs exhaustion and a receipt. -/
def badGrantStep (record next : Record) : Bool :=
  if next.grant = record.grant then
    !next.remaining.atMost record.remaining || next.lastRetry ≠ record.lastRetry ||
      (record.exhausted && !next.exhausted)
  else
    !record.exhausted || record.phase = .deleting || next.phase ≠ record.phase ||
      some next.grant ≠ checkedAdd record.grant 1 ||
      next.remaining ≠ record.initialAllowance || next.exhausted ||
      next.verified ≠ record.verified || next.variants ≠ record.variants ||
      next.exported ≠ record.exported || next.planned ≠ record.planned ||
      next.encoding ≠ record.encoding ||
      next.lastRetry.all fun receipt => receipt.request.expectedGrant ≠ record.grant

/-- The two records are not linked as predecessor and successor of one owner. -/
def breaksLink [Blake3] (record next : Record) : Bool :=
  checkedAdd record.revision 1 ≠ some next.revision || next.predecessor ≠ record.digest ||
    (record.encoding ≠ .v2 && next.encoding ≠ record.encoding &&
      !record.upgradesForExport next) ||
    (record.encoding = .v2 && next.encoding.hasVariants) || next.owner ≠ record.owner

/-- Everything a successor must satisfy. -/
def validateSuccessor [Blake3] (record next : Record) : Except StorageError Unit := do
  record.validate
  next.validate
  let badIntent ← record.badIntentStep next
  if record.breaksLink next || badIntent || record.breaksIdentity next then .error .malformed
  else
    record.validateVariantSuccessor next
    record.validateExportSuccessor next
    if record.badGrantStep next then .error .malformed else .ok ()

/-! ## The operations that make records -/

/-- The successor that a retry with a new grant publishes. -/
def grantRetry [Blake3] (record : Record) (request : KeepRetry) (grant : UInt64) :
    Except StorageError (Record × KeepRetryReceipt) := do
  let next ← record.successor
  let receipt : KeepRetryReceipt := ⟨request, grant⟩
  let next := { next with grant := grant, lastRetry := some receipt }
  let next := { next with remaining := next.initialAllowance, exhausted := false }
  record.validateSuccessor next
  pure (next, receipt)

/-- One explicit retry; repeating the request of the last one finds its receipt. -/
def retry [Blake3] (record : Record) (request : KeepRetry) :
    Except StorageError (Record × KeepRetryReceipt) :=
  match record.lastRetry.filter fun receipt => receipt.request = request with
  | some receipt => .ok (record, receipt)
  | none =>
    if request.transfer ≠ record.transfer ∨ request.expectedGrant ≠ record.grant ∨
        record.phase = .deleting ∨ ¬ record.exhausted then
      .error .malformed
    else
      match checkedAdd record.grant 1 with
      | none => .error .malformed
      | some grant => record.grantRetry request grant

/-! ## What the validators accept -/

/-- The candidates of an accepted record. -/
structure VariantsValid (record : Record) (variants : Variants) : Prop where
  encoding : record.encoding.hasVariants = true
  count_ge : record.encoding.minimum ≤ variants.candidates.length
  count_le : variants.candidates.length ≤ maxVariants
  selected_lt : variants.selected < variants.candidates.length
  committed_lt : ∀ index ∈ variants.committed, index < variants.candidates.length
  charged : ∀ candidate ∈ variants.candidates, ∃ charge, candidate.plan.charge = .ok charge
  verified_length : ∀ candidate ∈ variants.candidates,
    candidate.verified.length = candidate.plan.chunks.length
  plan_eq : some record.plan = (variants.candidates[variants.selected]?).map Candidate.plan
  verified_eq :
    some record.verified = (variants.candidates[variants.selected]?).map Candidate.verified
  resumable : record.phase = .resumable → variants.committed = none
  completed : record.phase = .completed → variants.committed ≠ none
  committed_verified : ∀ index ∈ variants.committed, ∀ candidate ∈ variants.candidates[index]?,
    ∀ bit ∈ candidate.verified, bit = true

theorem option_any_eq_false {α : Type} {p : α → Bool} {option : Option α} :
    option.any p = false ↔ ∀ value ∈ option, p value = false := by
  cases option <;> simp

variable {record : Record}

theorem checkCandidate_spec {variants : Variants} {entry : Candidate × Nat}
    (h : record.checkCandidate variants entry = .ok ()) :
    (∃ charge, entry.1.plan.charge = .ok charge) ∧
      entry.1.verified.length = entry.1.plan.chunks.length := by
  obtain ⟨charge, hcharge, h⟩ := bind_eq_ok.mp h
  refine ⟨⟨charge, hcharge⟩, ?_⟩
  split at h
  · cases h
  · rename_i hshape
    simp only [not_or, not_not] at hshape
    exact hshape.2.1

theorem variantsValid_of_validate {variants : Variants}
    (hvariants : record.variants = some variants) (h : record.validateVariants = .ok ()) :
    record.VariantsValid variants := by
  unfold validateVariants at h
  rw [hvariants] at h
  dsimp only at h
  split at h
  · cases h
  · rename_i hcounts
    obtain ⟨⟨⟩, hall, h⟩ := bind_eq_ok.mp h
    split at h
    · cases h
    · rename_i hmirror
      simp only [not_or, Nat.not_lt, Nat.not_le, Bool.not_eq_true, Bool.not_eq_false,
        option_any_eq_false, decide_eq_false_iff_not] at hcounts
      simp only [not_or, not_not, not_and, Bool.not_eq_true, Option.isSome_eq_false_iff,
        Option.isNone_iff_eq_none, option_any_eq_false, List.any_eq_false,
          Bool.not_eq_false'] at hmirror
      obtain ⟨hencoding, hge, hle, hselected, hcommitted⟩ := hcounts
      obtain ⟨hplan, hverified, hresumable, hcompleted, hbits⟩ := hmirror
      have hcheck : ∀ candidate ∈ variants.candidates,
          (∃ charge, candidate.plan.charge = .ok charge) ∧
            candidate.verified.length = candidate.plan.chunks.length := by
        intro candidate hmem
        obtain ⟨index, hindex⟩ := List.getElem?_of_mem hmem
        exact checkCandidate_spec (forM_eq_ok.mp hall (candidate, index)
          (List.mem_zipIdx_iff_getElem?.mpr hindex))
      exact {
        encoding := hencoding
        count_ge := hge
        count_le := hle
        selected_lt := hselected
        committed_lt := hcommitted
        charged := fun candidate hmem => (hcheck candidate hmem).1
        verified_length := fun candidate hmem => (hcheck candidate hmem).2
        plan_eq := hplan
        verified_eq := hverified
        resumable := hresumable
        completed := hcompleted
        committed_verified := hbits }

/-- What an accepted record satisfies. -/
structure Valid (record : Record) : Prop where
  group_ne : record.scope.group ≠ []
  group_le : record.scope.group.length ≤ 256
  charged : ∃ charge, record.plan.charge = .ok charge
  variants_none : record.variants = none → record.encoding.hasVariants = false
  variants_some : ∀ variants, record.variants = some variants → record.VariantsValid variants
  planned : ∀ planned ∈ record.planned, record.encoding = .downloadV2 ∧ planned.valid = true ∧
    record.exported = .none
  journal : ∀ journal ∈ record.exported.journal, record.encoding = .downloadV2 ∧
    journal.valid = true
  intent : record.badIntent = false
  initial : record.revision = 1 → record.initialFieldsValid = true
  verified_length : record.verified.length = record.plan.chunks.length
  remaining : record.remaining.atMost record.initialAllowance = true
  completed : record.encoding.hasVariants = false → record.phase = .completed →
    ∀ bit ∈ record.verified, bit = true
  receipt : record.badReceipt = false

theorem scope_of_validate {scope : KeepScope} (h : scope.validate = .ok ()) :
    scope.group ≠ [] ∧ scope.group.length ≤ 256 := by
  unfold KeepScope.validate at h
  obtain ⟨hscope, -⟩ := guard_eq_ok.mp h
  rw [not_or, Nat.not_lt] at hscope
  exact hscope

theorem journal_of_validate (h : record.validateJournal = .ok ()) :
    ∀ journal ∈ record.exported.journal, record.encoding = .downloadV2 ∧
      journal.valid = true := by
  intro journal hmem
  unfold validateJournal at h
  cases hexported : record.exported with
  | none =>
    rw [hexported] at hmem
    cases hmem
  | writing found | published found =>
    rw [hexported] at hmem h
    cases hmem
    obtain ⟨hshape, -⟩ := guard_eq_ok.mp h
    simp only [not_or, not_not] at hshape
    exact ⟨hshape.1, hshape.2.2.1⟩

theorem planned_of_validate (h : record.validateExport = .ok ()) :
    ∀ planned ∈ record.planned, record.encoding = .downloadV2 ∧ planned.valid = true ∧
      record.exported = .none := by
  intro planned hmem
  obtain ⟨hplanned, -⟩ := guard_eq_ok.mp h
  rw [Bool.not_eq_true, option_any_eq_false] at hplanned
  have hthis := hplanned planned hmem
  simp only [Bool.or_eq_false_iff, decide_eq_false_iff_not, not_not, Bool.not_eq_false'] at hthis
  exact ⟨hthis.1.1, hthis.2, hthis.1.2⟩

theorem valid_of_validate (h : record.validate = .ok ()) : record.Valid := by
  obtain ⟨⟨⟩, hscope, h⟩ := bind_eq_ok.mp h
  obtain ⟨charge, hcharge, h⟩ := bind_eq_ok.mp h
  obtain ⟨⟨⟩, hvariants, h⟩ := bind_eq_ok.mp h
  obtain ⟨⟨⟩, hexport, h⟩ := bind_eq_ok.mp h
  obtain ⟨hgroup, hgroup_le⟩ := scope_of_validate hscope
  split at h
  · cases h
  · rename_i hfields
    simp only [not_or, not_and, not_not, Bool.not_eq_true, List.any_eq_false,
      Bool.not_eq_false'] at hfields
    obtain ⟨-, hintent, -, -, hinitial, hlength, hremaining, hcompleted, hreceipt, -⟩ := hfields
    exact {
      group_ne := hgroup
      group_le := hgroup_le
      charged := ⟨charge, hcharge⟩
      variants_none := fun hnone => by
        unfold validateVariants at hvariants
        rw [hnone] at hvariants
        simpa using (guard_eq_ok.mp hvariants).1
      variants_some := fun variants hsome => variantsValid_of_validate hsome hvariants
      planned := planned_of_validate hexport
      journal := journal_of_validate (guard_eq_ok.mp hexport).2
      intent := hintent
      initial := fun hrevision => by simpa using hinitial hrevision
      verified_length := hlength
      remaining := by simpa using hremaining
      completed := hcompleted
      receipt := hreceipt }

/-- What an accepted step satisfies. -/
structure Follows [Blake3] (record next : Record) : Prop where
  valid : record.Valid
  next_valid : next.Valid
  revision : checkedAdd record.revision 1 = some next.revision
  predecessor : next.predecessor = record.digest
  owner : next.owner = record.owner
  scope : next.scope = record.scope
  transfer : next.transfer = record.transfer
  plan : record.variants = none → next.plan = record.plan
  listing : next.listing = record.listing
  verified : record.variants = none →
    ∀ bits ∈ record.verified.zip next.verified, bits.1 = true → bits.2 = true
  deleting : record.phase = .deleting → next.phase = .deleting
  completed : record.phase = .completed → next.phase ≠ .resumable
  variants : record.validateVariantSuccessor next = .ok ()
  grant : record.badGrantStep next = false

theorem follows_of_validateSuccessor [Blake3] {record next : Record}
    (h : record.validateSuccessor next = .ok ()) : record.Follows next := by
  obtain ⟨⟨⟩, hvalid, h⟩ := bind_eq_ok.mp h
  obtain ⟨⟨⟩, hnext, h⟩ := bind_eq_ok.mp h
  obtain ⟨badIntent, -, h⟩ := bind_eq_ok.mp h
  obtain ⟨hchecks, h⟩ := guard_eq_ok.mp h
  obtain ⟨⟨⟩, hvariants, h⟩ := bind_eq_ok.mp h
  obtain ⟨⟨⟩, -, h⟩ := bind_eq_ok.mp h
  obtain ⟨hgrant, -⟩ := guard_eq_ok.mp h
  simp only [breaksLink, breaksIdentity, Bool.or_eq_true, not_or, decide_eq_true_eq, not_not,
    Bool.and_eq_true, not_and, Option.isNone_iff_eq_none, Bool.not_eq_true, List.any_eq_false,
    Bool.not_eq_false'] at hchecks
  obtain ⟨⟨hlink, -⟩, ⟨⟨⟨⟨⟨hscope, htransfer⟩, hplan⟩, hlisting⟩, hverified⟩, hdeleting⟩,
    hcompleted⟩ := hchecks
  obtain ⟨⟨⟨⟨hrevision, hpredecessor⟩, -⟩, -⟩, howner⟩ := hlink
  exact {
    valid := valid_of_validate hvalid
    next_valid := valid_of_validate hnext
    revision := hrevision
    predecessor := hpredecessor
    owner := howner
    scope := hscope
    transfer := htransfer
    plan := hplan
    listing := hlisting
    verified := hverified
    deleting := hdeleting
    completed := hcompleted
    variants := hvariants
    grant := by simpa using hgrant }

/-- A new transfer of one chunk. -/
def sample : Record :=
  let plan : KeepPlan := ⟨1, 2, [7], [(3, 5)]⟩
  { encoding := .v3, userPaused := false, blocked := false, intent := 1, scope := ⟨[1], 4⟩
    transfer := 9, revision := 1, predecessor := 0, verified := [false]
    remaining := KeepAllowance.initial plan, plan := plan, listing := 6, phase := .resumable
    exhausted := false, grant := 1, lastRetry := none, variants := none, exported := .none
    planned := none }

end Record

end Kept
end Mewtual
