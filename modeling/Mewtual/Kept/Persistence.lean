import Mewtual.Kept.History
import Mewtual.Kept.RecordCodec
import Mewtual.Lib.AtomicReplace

/-!
# Publishing records

A transfer keeps its sealed record in the file {lit}`current`; a successor is written to
{lit}`next` and renamed. Opening a transfer reads both files. A {lit}`next` that cannot be read, or
that is not a successor of {lit}`current`, refuses the transfer: an older record is never chosen
because a newer one is damaged.

The sealing functions come from third-party code and are the fields of {lit}`Sealing`. The chunk
files of the transfer are given by their address and size.

Main results:

- Theorem {lit}`openRecord_spec`: what an opened record satisfies, on any directory.
- Theorem {lit}`openRecord_survivor`: what opening returns after an interrupted publication.
- Theorem {lit}`Transfer.publish_crash_safe`: every end of a publication.
-/

namespace Mewtual
namespace Kept

/-- The third-party authenticated encryption: key, nonce and text. -/
class Sealing where
  sealBytes : Hash32 → Fixed 24 → Bytes → Bytes
  unsealBytes : Hash32 → Fixed 24 → Bytes → Option Bytes

/-- What a sealed text is documented to satisfy. -/
structure Sealing.Lawful [Sealing] : Prop where
  opens : ∀ key nonce plain, unsealBytes key nonce (sealBytes key nonce plain) = some plain
  length : ∀ key nonce plain, (sealBytes key nonce plain).length = plain.length + 16

/-! ## Reading a slot -/

/-- The bytes of a record on disk: the nonce and the sealed text. -/
def diskBytes [Sealing] (key : Hash32) (nonce : Fixed 24) (record : Record) : Bytes :=
  fixedBytes nonce ++ Sealing.sealBytes key nonce record.encode

/-- The text of a file, if it authenticates. -/
def openSealed [Sealing] (key : Hash32) (bytes : Bytes) : Except StorageError Bytes :=
  if bytes.length ≤ 24 then .error .malformed
  else
    match Sealing.unsealBytes key (BitVec.ofNat (8 * 24) (beNat (bytes.take 24)))
        (bytes.drop 24) with
    | none => .error .crypto
    | some plain => .ok plain

/-- Open the bytes of a slot. -/
def readRecord [Sealing] (key : Hash32) : Option Bytes → Except StorageError (Option Record)
  | none => .ok none
  | some bytes =>
    if bytes.length > variantRecordLimit then .error .blobSizeLimit
    else do
      let plain ← openSealed key bytes
      let record ← Record.decode plain
      pure (some record)

/-- Bytes that do not authenticate. -/
def Torn [Sealing] (key : Hash32) (bytes : Bytes) : Prop :=
  ∃ error, openSealed key bytes = .error error

/-! ## Directory leaves -/

def variantChunkLimit : Nat := maxVariants * chunkLimit

/-- The largest bound any plan gives for a chunk. -/
def Record.chunkBound (record : Record) (cid : Cid) : Option Nat :=
  (((record.plans.flatMap KeepPlan.chunks).filter fun chunk => chunk.1 = cid).map
    fun chunk => chunk.2.toNat).max?

/-- A chunk file belongs to a plan and is no larger than its bound. -/
def Record.checkLeaf (record : Record) (leaf : Cid × Nat) : Except StorageError Unit :=
  match record.chunkBound leaf.1 with
  | none => .error .malformed
  | some bound => if leaf.2 > bound + 40 then .error .blobSizeLimit else .ok ()

/-- The chunk files of a transfer fit its record. -/
def validateLeaves (record : Record) (image : Slots Bytes) (leaves : List (Cid × Nat)) :
    Except StorageError Unit :=
  let slots := image.current.toList ++ image.next.toList
  if slots.length + leaves.length > variantChunkLimit + 2 then .error .blobSizeLimit
  else if slots.any fun bytes => decide (bytes.length > record.slotLimit) then
    .error .blobSizeLimit
  else leaves.forM record.checkLeaf

/-! ## Opening -/

def hexDigit (value : Nat) : Char := "0123456789abcdef".toList.getD value '0'

/-- Lower-case hexadecimal text. -/
def hexText (bytes : Bytes) : String :=
  String.ofList (bytes.flatMap fun byte => [hexDigit (byte.toNat / 16), hexDigit (byte.toNat % 16)])

/-- The directory name of an owner. -/
def Owner.name : Owner → String
  | .keep cid => hexText (fixedBytes cid)
  | .download id => "d-" ++ hexText (fixedBytes id)

/-- How the effects of an opening end. -/
structure OpenIo where
  flush : Except StorageError Unit := .ok ()
  rename : Except StorageError Unit := .ok ()
  barrier : Except StorageError Unit := .ok ()

/-- A record belongs to the scope and to the directory. -/
def checkPlace (scope : KeepScope) (name : String) (record : Record) : Except StorageError Unit :=
  if record.scope ≠ scope ∨ name ≠ record.owner.name then .error .malformed else .ok ()

/-- Reconcile the two slots. -/
def reconcile [Blake3] (io : OpenIo) (image : Slots Bytes) (leaves : List (Cid × Nat)) :
    Option Record → Option Record → Except StorageError Record
  | some current, none => do
    validateLeaves current image leaves
    io.flush
    io.barrier
    pure current
  | some current, some next => do
    current.validateSuccessor next
    validateLeaves current image leaves
    io.flush
    io.rename
    io.barrier
    pure next
  | none, some next => do
    next.validateInitial
    if leaves ≠ [] then .error .malformed
    else
      validateLeaves next image leaves
      io.flush
      io.rename
      io.barrier
      pure next
  | none, none => .error .malformed

/-- The slots after the reconciliation. -/
def reconciled (image : Slots Bytes) : Slots Bytes := ⟨image.next.or image.current, none⟩

/-- Open a transfer: read both slots, finish or refuse a publication, and check its files. -/
def openRecord [Blake3] [Sealing] (key : Hash32) (scope : KeepScope) (name : String) (io : OpenIo)
    (image : Slots Bytes) (leaves : List (Cid × Nat)) : Except StorageError Record := do
  let current ← readRecord key image.current
  let next ← readRecord key image.next
  (current.toList ++ next.toList).forM (checkPlace scope name)
  let record ← reconcile io image leaves current next
  checkPlace scope name record
  validateLeaves record (reconciled image) leaves
  pure record

/-! ## Publishing -/

/-- A mounted transfer with its directory. -/
structure Transfer where
  record : Record
  poisoned : Bool
  volume : Volume Bytes

/-- How a publication ended. -/
inductive PublishEnd where
  | published
  | failed (error : StorageError)
  | crashed
deriving DecidableEq

/-- The message of a refusal that left the old record in force. -/
def recordDiskFull : StorageError :=
  .io "There is not enough disk space to save transfer progress. Free some space and try again."

/-- The message of a publication on a poisoned transfer. It also stands for what a failing effect
reports. -/
def needsStorageCheck : StorageError := .io "retained transfer needs a storage check"

namespace Transfer

/-- Write a record through the temporary. -/
def write [Sealing] (key : Hash32) (nonce : Fixed 24) (io : ReplaceStep → Effect) (next : Record)
    (transfer : Transfer) : PublishEnd × Transfer :=
  if next.encode.length + 40 > next.slotLimit then
    (.failed .blobSizeLimit, { transfer with poisoned := true })
  else
    let (result, volume) := transfer.volume.replace io [] (diskBytes key nonce next)
    match result with
    | .replaced => (.published, { transfer with volume := volume })
    | .refused => (.failed recordDiskFull, { transfer with volume := volume })
    | .broken => (.failed needsStorageCheck, { transfer with poisoned := true, volume := volume })
    | .crashed => (.crashed, { transfer with poisoned := true, volume := volume })

/-- Seal a successor and replace the current record with it. -/
def publish [Blake3] [Sealing] (key : Hash32) (nonce : Fixed 24) (io : ReplaceStep → Effect)
    (next : Record) (transfer : Transfer) : PublishEnd × Transfer :=
  if transfer.poisoned then (.failed needsStorageCheck, transfer)
  else
    match transfer.record.validateSuccessor next with
    | .error error => (.failed error, transfer)
    | .ok () =>
      match transfer.write key nonce io next with
      | (.published, after) => (.published, { after with record := next })
      | (result, after) => (result, after)

end Transfer

/-! ## What an opened record satisfies -/

section Opening

variable [Blake3] [Sealing] {key : Hash32} {scope : KeepScope} {name : String} {io : OpenIo}
  {image : Slots Bytes} {leaves : List (Cid × Nat)} {record : Record}

omit [Sealing] in
/-- A reconciliation returns the next slot if there is one, and only a valid one. It has then done
all its effects. -/
theorem reconcile_spec {current next : Option Record}
    (h : reconcile io image leaves current next = .ok record) :
    ((current = some record ∧ next = none) ∨
      (next = some record ∧
        ((∃ old, current = some old ∧ old.validateSuccessor record = .ok ()) ∨
          (current = none ∧ record.validateInitial = .ok ())))) ∧
    reconcile {} image leaves current next = .ok record ∧ io.flush.isOk = true ∧
      io.barrier.isOk = true ∧ (next.isSome → io.rename.isOk = true) := by
  cases current with
  | none =>
    cases next with
    | none => cases h
    | some next =>
      obtain ⟨⟨⟩, hinitial, h⟩ := bind_eq_ok.mp h
      obtain ⟨hleaves, h⟩ := guard_eq_ok.mp h
      obtain ⟨⟨⟩, hvalid, h⟩ := bind_eq_ok.mp h
      obtain ⟨⟨⟩, hflush, h⟩ := bind_eq_ok.mp h
      obtain ⟨⟨⟩, hrename, h⟩ := bind_eq_ok.mp h
      obtain ⟨⟨⟩, hbarrier, h⟩ := bind_eq_ok.mp h
      cases h
      refine ⟨.inr ⟨rfl, .inr ⟨rfl, hinitial⟩⟩, ?_, by rw [hflush]; rfl, by rw [hbarrier]; rfl,
        fun _ => by rw [hrename]; rfl⟩
      dsimp only [reconcile]
      rw [hinitial, ok_bind, if_neg hleaves, hvalid]
      rfl
  | some current =>
    cases next with
    | none =>
      obtain ⟨⟨⟩, hvalid, h⟩ := bind_eq_ok.mp h
      obtain ⟨⟨⟩, hflush, h⟩ := bind_eq_ok.mp h
      obtain ⟨⟨⟩, hbarrier, h⟩ := bind_eq_ok.mp h
      cases h
      refine ⟨.inl ⟨rfl, rfl⟩, ?_, by rw [hflush]; rfl, by rw [hbarrier]; rfl, nofun⟩
      dsimp only [reconcile]
      rw [hvalid]
      rfl
    | some next =>
      obtain ⟨⟨⟩, hsuccessor, h⟩ := bind_eq_ok.mp h
      obtain ⟨⟨⟩, hvalid, h⟩ := bind_eq_ok.mp h
      obtain ⟨⟨⟩, hflush, h⟩ := bind_eq_ok.mp h
      obtain ⟨⟨⟩, hrename, h⟩ := bind_eq_ok.mp h
      obtain ⟨⟨⟩, hbarrier, h⟩ := bind_eq_ok.mp h
      cases h
      refine ⟨.inr ⟨rfl, .inl ⟨current, rfl, hsuccessor⟩⟩, ?_, by rw [hflush]; rfl,
        by rw [hbarrier]; rfl, fun _ => by rw [hrename]; rfl⟩
      dsimp only [reconcile]
      rw [hsuccessor, ok_bind, hvalid]
      rfl

omit [Blake3] in
theorem readRecord_eq_none {found : Option Bytes} (h : readRecord key found = .ok none) :
    found = none := by
  cases found with
  | none => rfl
  | some bytes =>
    obtain ⟨-, h⟩ := guard_eq_ok.mp h
    obtain ⟨plain, -, h⟩ := bind_eq_ok.mp h
    obtain ⟨decoded, -, h⟩ := bind_eq_ok.mp h
    cases h

/-- What an opened record satisfies on any directory: with a next slot it is that slot's record,
which read well and is a successor of the current one or a first record. -/
theorem openRecord_spec (h : openRecord key scope name io image leaves = .ok record) :
    (image.next = none ∧ readRecord key image.current = .ok (some record)) ∨
      (readRecord key image.next = .ok (some record) ∧
        ((∃ old, readRecord key image.current = .ok (some old) ∧
            old.validateSuccessor record = .ok ()) ∨
          (image.current = none ∧ record.validateInitial = .ok ()))) := by
  obtain ⟨current, hcurrent, h⟩ := bind_eq_ok.mp h
  obtain ⟨next, hnext, h⟩ := bind_eq_ok.mp h
  obtain ⟨⟨⟩, -, h⟩ := bind_eq_ok.mp h
  obtain ⟨found, hfound, h⟩ := bind_eq_ok.mp h
  obtain ⟨⟨⟩, -, h⟩ := bind_eq_ok.mp h
  obtain ⟨⟨⟩, -, h⟩ := bind_eq_ok.mp h
  cases h
  rcases (reconcile_spec hfound).1 with ⟨rfl, rfl⟩ | ⟨rfl, ⟨old, rfl, hsuccessor⟩ | ⟨rfl, hinitial⟩⟩
  · exact .inl ⟨readRecord_eq_none hnext, hcurrent⟩
  · exact .inr ⟨hnext, .inl ⟨old, hcurrent, hsuccessor⟩⟩
  · exact .inr ⟨hnext, .inr ⟨readRecord_eq_none hcurrent, hinitial⟩⟩

/-! ## Opening after a publication -/

/-- The chunk files belong to the plans. -/
structure LeavesFit (record : Record) (leaves : List (Cid × Nat)) : Prop where
  count : leaves.length ≤ variantChunkLimit
  fits : ∀ leaf ∈ leaves, record.checkLeaf leaf = .ok ()

omit [Blake3] [Sealing] in
theorem LeavesFit.congr {next : Record} (h : LeavesFit record leaves)
    (hplans : next.plans = record.plans) : LeavesFit next leaves := by
  refine ⟨h.count, fun leaf hmem => ?_⟩
  have hfits := h.fits leaf hmem
  unfold Record.checkLeaf Record.chunkBound at hfits ⊢
  rwa [hplans]

omit [Blake3] [Sealing] in
theorem LeavesFit.validate (h : LeavesFit record leaves)
    (hcurrent : ∀ bytes ∈ image.current, bytes.length ≤ record.slotLimit)
    (hnext : ∀ bytes ∈ image.next, bytes.length ≤ record.slotLimit) :
    validateLeaves record image leaves = .ok () := by
  have hcount := h.count
  have hslots : (image.current.toList ++ image.next.toList).length ≤ 2 := by
    cases image.current <;> cases image.next <;> simp
  have hsizes : (image.current.toList ++ image.next.toList).any
      (fun bytes => decide (bytes.length > record.slotLimit)) = false := by
    rw [List.any_eq_false]
    intro bytes hmem
    rw [decide_eq_true_eq, Nat.not_lt]
    rcases List.mem_append.mp hmem with hmem | hmem
    · exact hcurrent bytes (Option.mem_toList.mp hmem)
    · exact hnext bytes (Option.mem_toList.mp hmem)
  unfold validateLeaves
  dsimp only
  rw [if_neg (by omega), hsizes]
  exact forM_eq_ok.mpr h.fits

omit [Sealing] in
theorem slotLimit_eq {next : Record} (h : record.Follows next) :
    next.slotLimit = record.slotLimit := by
  have hsame : next.encoding.hasVariants = record.encoding.hasVariants := by
    rcases Record.variantStep_of_validate h.variants with
      ⟨hold, hnew⟩ | ⟨old, new, hold, hnew, -⟩
    · rw [h.valid.variants_none hold, h.next_valid.variants_none hnew]
    · rw [(h.valid.variants_some old hold).encoding, (h.next_valid.variants_some new hnew).encoding]
  unfold Record.slotLimit RecordEncoding.slotLimit
  rw [hsame]

omit [Blake3] [Sealing] in
theorem slotLimit_le (record : Record) : record.slotLimit ≤ variantRecordLimit := by
  unfold Record.slotLimit RecordEncoding.slotLimit
  split
  · exact Nat.le_refl _
  · decide

omit [Blake3] in
theorem length_diskBytes (hseal : Sealing.Lawful) (key : Hash32) (nonce : Fixed 24)
    (record : Record) : (diskBytes key nonce record).length = record.encode.length + 40 := by
  rw [diskBytes, List.length_append, length_fixedBytes, hseal.length]
  omega

omit [Blake3] in
/-- A sealed record is read back. -/
theorem readRecord_diskBytes (hseal : Sealing.Lawful) (nonce : Fixed 24)
    (h : record.validate = .ok ()) :
    readRecord key (some (diskBytes key nonce record)) = .ok (some record) := by
  have hlength := length_diskBytes hseal key nonce record
  have hslot := Record.length_encode_le (Record.valid_of_validate h)
  have hlimit := slotLimit_le record
  have htake : (diskBytes key nonce record).take 24 = fixedBytes nonce :=
    List.take_left' (by simp)
  have hdrop : (diskBytes key nonce record).drop 24 = Sealing.sealBytes key nonce record.encode :=
    List.drop_left' (by simp)
  have hopened : openSealed key (diskBytes key nonce record) = .ok record.encode := by
    unfold openSealed
    rw [if_neg (by omega), htake, hdrop, beNat_fixedBytes, BitVec.ofNat_toNat, BitVec.setWidth_eq,
      hseal.opens]
  unfold readRecord
  dsimp only
  rw [if_neg (by omega), hopened, ok_bind, Record.decode_encode h]
  rfl

omit [Blake3] in
/-- Torn bytes are not read as a record. -/
theorem readRecord_torn {bytes : Bytes} (h : Torn key bytes) :
    ∃ error, readRecord key (some bytes) = .error error := by
  obtain ⟨error, herror⟩ := h
  unfold readRecord
  dsimp only
  split
  · exact ⟨_, rfl⟩
  · rw [herror]
    exact ⟨error, rfl⟩

omit [Blake3] [Sealing] in
theorem checkPlace_self (record : Record) :
    checkPlace record.scope record.owner.name record = .ok () :=
  if_neg (by simp)

/-- A record alone in its directory is opened. -/
theorem openRecord_alone {bytes : Bytes} (hread : readRecord key (some bytes) = .ok (some record))
    (hsize : bytes.length ≤ record.slotLimit) (hleaves : LeavesFit record leaves) :
    openRecord key record.scope record.owner.name {} ⟨some bytes, none⟩ leaves
      = .ok record := by
  have hvalidate : validateLeaves record ⟨some bytes, none⟩ leaves = .ok () := by
    refine hleaves.validate ?_ forall_mem_none
    rintro found ⟨⟩
    exact hsize
  have hplace : [record].forM (checkPlace record.scope record.owner.name) = .ok () := by
    rw [forM_eq_ok]
    rintro found hfound
    rw [List.mem_singleton.mp hfound]
    exact checkPlace_self record
  have hnone : readRecord key none = .ok none := rfl
  unfold openRecord
  simp only [hread, hnone, ok_bind, Option.toList_some, Option.toList_none,
    List.append_nil, hplace, reconcile, reconciled, Option.none_or, hvalidate, pure]
  simp only [Except.pure, ok_bind, checkPlace_self, hvalidate]

/-- A successor that waits beside its predecessor is opened. -/
theorem openRecord_pending {old new : Record} {oldBytes newBytes : Bytes}
    (hold : readRecord key (some oldBytes) = .ok (some old))
    (hnew : readRecord key (some newBytes) = .ok (some new))
    (hsizeOld : oldBytes.length ≤ old.slotLimit) (hsizeNew : newBytes.length ≤ old.slotLimit)
    (hsuccessor : old.validateSuccessor new = .ok ()) (hleaves : LeavesFit old leaves) :
    openRecord key old.scope old.owner.name {} ⟨some oldBytes, some newBytes⟩ leaves
      = .ok new := by
  have hfollows := Record.follows_of_validateSuccessor hsuccessor
  have hlimit := slotLimit_eq hfollows
  have hboth : validateLeaves old ⟨some oldBytes, some newBytes⟩ leaves = .ok () := by
    refine hleaves.validate ?_ ?_
    · rintro found ⟨⟩
      exact hsizeOld
    · rintro found ⟨⟩
      exact hsizeNew
  have hafter : validateLeaves new ⟨some newBytes, none⟩ leaves = .ok () := by
    refine (hleaves.congr hfollows.plans_eq).validate ?_ forall_mem_none
    rintro found ⟨⟩
    rw [hlimit]
    exact hsizeNew
  have hplaceNew : checkPlace old.scope old.owner.name new = .ok () := by
    rw [← hfollows.scope, ← hfollows.owner]
    exact checkPlace_self new
  have hplace : [old, new].forM (checkPlace old.scope old.owner.name) = .ok () := by
    rw [forM_eq_ok]
    intro found hfound
    rcases List.mem_cons.mp hfound with rfl | hfound
    · exact checkPlace_self found
    · rw [List.mem_singleton.mp hfound]
      exact hplaceNew
  unfold openRecord
  simp only [hold, hnew, ok_bind, Option.toList_some, List.cons_append, List.nil_append,
    hplace, reconcile, reconciled, hsuccessor, hboth, Option.some_or, pure]
  simp only [Except.pure, ok_bind, hplaceNew, hafter]

end Opening

/-! ## Every end of a publication -/

namespace Transfer

section Publication

variable [Blake3] [Sealing] {key : Hash32} {transfer : Transfer} {next : Record}

/-- A transfer whose record is the one on disk, now and after any crash. -/
structure Ready (key : Hash32) (transfer : Transfer) : Prop where
  poisoned : transfer.poisoned = false
  stored : ∃ bytes, transfer.volume.Settled bytes ∧
    readRecord key (some bytes) = .ok (some transfer.record) ∧
    bytes.length ≤ transfer.record.slotLimit

omit [Blake3] in
/-- A file that was created and not yet written to opens as no record. -/
theorem torn_nil (key : Hash32) : Torn key [] :=
  ⟨_, rfl⟩

/-- A publication ends as the replacement of its file does. -/
theorem publish_eq (hpoisoned : transfer.poisoned = false)
    (hsuccessor : transfer.record.validateSuccessor next = .ok ()) (nonce : Fixed 24)
    (io : ReplaceStep → Effect) :
    transfer.publish key nonce io next =
      match transfer.volume.replace io [] (diskBytes key nonce next) with
      | (.replaced, volume) => (.published, ⟨next, false, volume⟩)
      | (.refused, volume) => (.failed recordDiskFull, { transfer with volume := volume })
      | (.broken, volume) =>
        (.failed needsStorageCheck, { transfer with poisoned := true, volume := volume })
      | (.crashed, volume) => (.crashed, { transfer with poisoned := true, volume := volume }) := by
  have hvalid := (Record.follows_of_validateSuccessor hsuccessor).next_valid
  have hsize : ¬ next.encode.length + 40 > next.slotLimit :=
    Nat.not_lt.mpr (Record.length_encode_le hvalid)
  unfold publish write
  rw [hpoisoned, hsuccessor]
  simp only [Bool.false_eq_true, if_false, if_neg hsize]
  cases transfer.volume.replace io [] (diskBytes key nonce next) with
  | mk result volume => cases result <;> simp

omit [Sealing] in
theorem validate_of_validateSuccessor {record : Record}
    (h : record.validateSuccessor next = .ok ()) : next.validate = .ok () := by
  obtain ⟨⟨⟩, -, h⟩ := bind_eq_ok.mp h
  obtain ⟨⟨⟩, hnext, -⟩ := bind_eq_ok.mp h
  exact hnext

variable {leaves : List (Cid × Nat)}

/-- What the next opening returns, by what survived. -/
theorem openRecord_survivor (hseal : Sealing.Lawful) {old new : Record} {oldBytes : Bytes}
    {nonce : Fixed 24} {flushed : Prop} {image : Slots Bytes}
    (hold : readRecord key (some oldBytes) = .ok (some old))
    (hsize : oldBytes.length ≤ old.slotLimit) (hsuccessor : old.validateSuccessor new = .ok ())
    (hleaves : LeavesFit old leaves)
    (h : Volume.Survivor (Torn key) oldBytes (diskBytes key nonce new) flushed image) :
    openRecord key old.scope old.owner.name {} image leaves = .ok old ∨
      openRecord key old.scope old.owner.name {} image leaves = .ok new ∨
      ∃ error bytes, openRecord key old.scope old.owner.name {} image leaves = .error error ∧
        image.next = some bytes ∧ Torn key bytes ∧ ¬ flushed := by
  have hfollows := Record.follows_of_validateSuccessor hsuccessor
  have hlimit := slotLimit_eq hfollows
  have hnew : readRecord key (some (diskBytes key nonce new)) = .ok (some new) :=
    readRecord_diskBytes hseal nonce (validate_of_validateSuccessor hsuccessor)
  have hlength : (diskBytes key nonce new).length ≤ new.slotLimit := by
    rw [length_diskBytes hseal]
    exact Record.length_encode_le hfollows.next_valid
  cases h with
  | old => exact .inl (openRecord_alone hold hsize hleaves)
  | torn bytes htorn hflushed =>
    right
    right
    obtain ⟨error, herror⟩ := readRecord_torn htorn
    refine ⟨error, bytes, ?_, rfl, htorn, hflushed⟩
    unfold openRecord
    simp only [hold, herror, ok_bind, error_bind]
  | pending =>
    right
    left
    exact openRecord_pending hold hnew hsize (hlimit ▸ hlength) hsuccessor hleaves
  | new =>
    right
    left
    rw [← hfollows.scope, ← hfollows.owner]
    exact openRecord_alone hnew hlength (hleaves.congr hfollows.plans_eq)

/-- A publication that was reported, or refused for lack of space, leaves a transfer that is ready
with the record it reports. -/
theorem publish_ready (hseal : Sealing.Lawful) (hready : transfer.Ready key)
    (hsuccessor : transfer.record.validateSuccessor next = .ok ()) (nonce : Fixed 24)
    (io : ReplaceStep → Effect) :
    ((transfer.publish key nonce io next).1 = .published →
        (transfer.publish key nonce io next).2.Ready key ∧
          (transfer.publish key nonce io next).2.record = next) ∧
      ((transfer.publish key nonce io next).1 = .failed recordDiskFull →
        (transfer.publish key nonce io next).2.Ready key ∧
          (transfer.publish key nonce io next).2.record = transfer.record) := by
  obtain ⟨bytes, hsettled, hread, hsize⟩ := hready.stored
  have hfollows := Record.follows_of_validateSuccessor hsuccessor
  have hends := Volume.replace_ends hsettled (torn_nil key) io (diskBytes key nonce next)
  rw [publish_eq hready.poisoned hsuccessor]
  generalize transfer.volume.replace io [] (diskBytes key nonce next) = outcome at hends
  obtain ⟨result, volume⟩ := outcome
  cases result with
  | replaced =>
    refine ⟨fun _ => ⟨⟨rfl, ?_⟩, rfl⟩, nofun⟩
    refine ⟨_, hends.replaced rfl, ?_, ?_⟩
    · exact readRecord_diskBytes hseal nonce (validate_of_validateSuccessor hsuccessor)
    · rw [length_diskBytes hseal]
      exact Record.length_encode_le hfollows.next_valid
  | refused =>
    refine ⟨nofun, fun _ => ⟨⟨hready.poisoned, ?_⟩, rfl⟩⟩
    exact ⟨bytes, hends.refused rfl, hread, hsize⟩
  | broken =>
    refine ⟨nofun, fun hfull => ?_⟩
    have herror : needsStorageCheck = recordDiskFull := by injection hfull
    exact absurd herror (by decide)
  | crashed => exact ⟨nofun, nofun⟩

/-- Every crash image of a publication opens as {lit}`openRecord_survivor` says. -/
theorem publish_survives (hseal : Sealing.Lawful) (hready : transfer.Ready key)
    (hsuccessor : transfer.record.validateSuccessor next = .ok ()) (nonce : Fixed 24)
    (io : ReplaceStep → Effect) (hleaves : LeavesFit transfer.record leaves) {image : Slots Bytes}
    (himage : (transfer.publish key nonce io next).2.volume.Survives (Torn key) image) :
    let reopened := openRecord key transfer.record.scope transfer.record.owner.name {} image leaves
    reopened = .ok transfer.record ∨ reopened = .ok next ∨
      ∃ error bytes, reopened = .error error ∧ image.next = some bytes ∧ Torn key bytes ∧
        ¬ (io .create = .done ∧ io .write = .done ∧ io .sync = .done) := by
  obtain ⟨bytes, hsettled, hread, hsize⟩ := hready.stored
  have hends := Volume.replace_ends hsettled (torn_nil key) io (diskBytes key nonce next)
  have hvolume : (transfer.publish key nonce io next).2.volume =
      (transfer.volume.replace io [] (diskBytes key nonce next)).2 := by
    rw [publish_eq hready.poisoned hsuccessor]
    cases transfer.volume.replace io [] (diskBytes key nonce next) with
    | mk result volume => cases result <;> rfl
  rw [hvolume] at himage
  exact openRecord_survivor hseal hread hsize hsuccessor hleaves (hends.survives image himage)

/-- A ready transfer opens as the record it holds, whatever crash comes. -/
theorem Ready.openRecord_eq (hready : transfer.Ready key)
    (hleaves : LeavesFit transfer.record leaves) {image : Slots Bytes}
    (himage : transfer.volume.Survives (Torn key) image) :
    openRecord key transfer.record.scope transfer.record.owner.name {} image leaves =
      .ok transfer.record := by
  obtain ⟨bytes, hsettled, hread, hsize⟩ := hready.stored
  rw [hsettled.survives himage]
  exact openRecord_alone hread hsize hleaves

/-- Every end of a publication. After any crash the next opening returns the old record, the new
one, or refuses a damaged {lit}`next` that was not written and flushed in full. A publication that
was reported opens as the new record, and one that was refused for lack of space as the old one;
either leaves the transfer ready to publish again. An opening on any directory returns the record
of a readable {lit}`next`, if there is one, that is a successor of the current record or a first
record. -/
theorem publish_crash_safe (hseal : Sealing.Lawful) (transfer : Transfer) (next : Record)
    (hready : transfer.Ready key) (hsuccessor : transfer.record.validateSuccessor next = .ok ())
    (nonce : Fixed 24) (io : ReplaceStep → Effect) (leaves : List (Cid × Nat))
    (hleaves : LeavesFit transfer.record leaves) :
    let outcome := transfer.publish key nonce io next
    (∀ image, outcome.2.volume.Survives (Torn key) image →
      let reopened :=
        openRecord key transfer.record.scope transfer.record.owner.name {} image leaves
      (reopened = .ok transfer.record ∨ reopened = .ok next ∨
        ∃ error bytes, reopened = .error error ∧ image.next = some bytes ∧ Torn key bytes ∧
          ¬ (io .create = .done ∧ io .write = .done ∧ io .sync = .done)) ∧
      (outcome.1 = .published → reopened = .ok next) ∧
      (outcome.1 = .failed recordDiskFull → reopened = .ok transfer.record)) ∧
    (outcome.1 = .published → outcome.2.Ready key ∧ outcome.2.record = next) ∧
    (outcome.1 = .failed recordDiskFull →
      outcome.2.Ready key ∧ outcome.2.record = transfer.record) ∧
    ∀ scope name openIo image files record bytes,
      openRecord key scope name openIo image files = .ok record → image.next = some bytes →
      ¬ Torn key bytes ∧ readRecord key (some bytes) = .ok (some record) ∧
        ((∃ old, readRecord key image.current = .ok (some old) ∧
            old.validateSuccessor record = .ok ()) ∨
          (image.current = none ∧ record.validateInitial = .ok ())) := by
  intro outcome
  obtain ⟨hpublished, hrefused⟩ := publish_ready hseal hready hsuccessor nonce io
  have hfollows := Record.follows_of_validateSuccessor hsuccessor
  refine ⟨fun image himage => ⟨?_, ?_, ?_⟩, hpublished, hrefused, ?_⟩
  · exact publish_survives hseal hready hsuccessor nonce io hleaves himage
  · intro hend
    obtain ⟨hnext, hrecord⟩ := hpublished hend
    have hfit : LeavesFit outcome.2.record leaves := by
      rw [hrecord]
      exact hleaves.congr hfollows.plans_eq
    have hopen := hnext.openRecord_eq hfit himage
    rw [hrecord, hfollows.scope, hfollows.owner] at hopen
    exact hopen
  · intro hend
    obtain ⟨hold, hrecord⟩ := hrefused hend
    have hopen := hold.openRecord_eq (hrecord ▸ hleaves) himage
    rw [hrecord] at hopen
    exact hopen
  · intro scope name openIo image files record bytes hopen hbytes
    rcases openRecord_spec hopen with ⟨hnone, -⟩ | ⟨hread, hvalid⟩
    · rw [hbytes] at hnone
      cases hnone
    · rw [hbytes] at hread
      refine ⟨?_, hread, hvalid⟩
      intro htorn
      obtain ⟨error, herror⟩ := readRecord_torn htorn
      rw [herror] at hread
      cases hread

omit [Blake3] in
/-- A transfer whose record was just written. -/
theorem ready_of_stored (hseal : Sealing.Lawful) {record : Record}
    (hvalid : record.validate = .ok ()) (nonce : Fixed 24) :
    Ready key ⟨record, false,
      ⟨fun _ => ⟨diskBytes key nonce record, true⟩, 1, ⟨some 0, none⟩, []⟩⟩ := by
  refine ⟨rfl, diskBytes key nonce record, ⟨rfl, rfl, 0, Nat.one_pos, rfl, rfl⟩, ?_, ?_⟩
  · exact readRecord_diskBytes hseal nonce hvalid
  · rw [length_diskBytes hseal]
    exact Record.length_encode_le (Record.valid_of_validate hvalid)

end Publication

/-- A sealing that appends a tag. -/
@[reducible]
def tagSealing : Sealing where
  sealBytes _ _ plain := plain ++ List.replicate 16 7
  unsealBytes _ _ bytes :=
    if bytes.drop (bytes.length - 16) = List.replicate 16 7 then
      some (bytes.take (bytes.length - 16))
    else none

theorem tagSealing_lawful : @Sealing.Lawful tagSealing := by
  let : Sealing := tagSealing
  refine ⟨fun key nonce plain => ?_, fun key nonce plain => ?_⟩
  · have hlength : (plain ++ List.replicate 16 (7 : UInt8)).length - 16 = plain.length := by
      rw [List.length_append, List.length_replicate, Nat.add_sub_cancel]
    unfold Sealing.unsealBytes Sealing.sealBytes
    dsimp only [this]
    rw [hlength, List.drop_left, List.take_left, if_pos rfl]
  · unfold Sealing.sealBytes
    dsimp only [this]
    rw [List.length_append, List.length_replicate]

/-- A first publication without failures is read back. -/
theorem publish_crash_safe_one_step :
    letI : Blake3 := ⟨fun _ => 0⟩
    letI : Sealing := tagSealing
    let first := Record.sample
    let second : Record := { first with revision := 2, verified := [true] }
    let transfer : Transfer :=
      ⟨first, false, ⟨fun _ => ⟨diskBytes 0 0 first, true⟩, 1, ⟨some 0, none⟩, []⟩⟩
    transfer.Ready 0 ∧ first.validateSuccessor second = .ok () ∧ LeavesFit first [(3, 45)] ∧
      ∀ image,
        (transfer.publish 0 0 (fun _ => .done) second).2.volume.Survives (Torn 0) image →
        openRecord 0 first.scope first.owner.name {} image [(3, 45)] = .ok second := by
  let : Blake3 := ⟨fun _ => 0⟩
  let : Sealing := tagSealing
  intro first second transfer
  have hseal : Sealing.Lawful := tagSealing_lawful
  have hvalid : first.validate = .ok () := by decide +kernel
  have hready : transfer.Ready 0 := ready_of_stored hseal hvalid 0
  have hsuccessor : first.validateSuccessor second = .ok () := by decide +kernel
  have hleaves : LeavesFit first [(3, 45)] := by
    refine ⟨by decide, fun leaf hmem => ?_⟩
    rw [List.mem_singleton.mp hmem]
    decide +kernel
  obtain ⟨hcrash, -⟩ := publish_crash_safe hseal transfer second hready hsuccessor 0
    (fun _ => .done) [(3, 45)] hleaves
  have hend : (transfer.publish 0 0 (fun _ => .done) second).1 = .published := by
    rw [publish_eq hready.poisoned hsuccessor]
    rfl
  refine ⟨hready, hsuccessor, hleaves, fun image himage => ?_⟩
  -- The publication is not to be evaluated here.
  generalize transfer.publish 0 0 (fun _ => .done) second = outcome at hcrash hend himage
  obtain ⟨-, hopen, -⟩ := hcrash image himage
  exact hopen hend

/-- A crash while the temporary is written leaves a directory that opens as neither record. -/
theorem publish_torn_refuses :
    letI : Blake3 := ⟨fun _ => 0⟩
    letI : Sealing := tagSealing
    let first := Record.sample
    let second : Record := { first with revision := 2, verified := [true] }
    let transfer : Transfer :=
      ⟨first, false, ⟨fun _ => ⟨diskBytes 0 0 first, true⟩, 1, ⟨some 0, none⟩, []⟩⟩
    let io : ReplaceStep → Effect := fun step => if step = .write then .crashed else .done
    let image : Slots Bytes := ⟨some (diskBytes 0 0 first), some []⟩
    Sealing.Lawful ∧ transfer.Ready 0 ∧ first.validateSuccessor second = .ok () ∧
      LeavesFit first [] ∧
      (transfer.publish 0 0 io second).2.volume.Survives (Torn 0) image ∧
      openRecord 0 first.scope first.owner.name {} image [] = .error .malformed := by
  let : Blake3 := ⟨fun _ => 0⟩
  let : Sealing := tagSealing
  intro first second transfer io image
  have hseal : Sealing.Lawful := tagSealing_lawful
  have hvalid : first.validate = .ok () := by decide +kernel
  have hread : readRecord 0 (some (diskBytes 0 0 first)) = .ok (some first) :=
    readRecord_diskBytes hseal 0 hvalid
  have hready : transfer.Ready 0 := ready_of_stored hseal hvalid 0
  have hsuccessor : first.validateSuccessor second = .ok () := by decide +kernel
  refine ⟨hseal, hready, hsuccessor, ⟨by decide, nofun⟩, ?_, ?_⟩
  · rw [publish_eq hready.poisoned hsuccessor]
    refine ⟨⟨some 0, some 1⟩, List.mem_cons_self, ?_, ?_⟩
    · exact ⟨_, rfl, .inl rfl⟩
    · exact ⟨[], rfl, .inr ⟨rfl, torn_nil 0⟩⟩
  · unfold openRecord
    rw [show image.current = some (diskBytes 0 0 first) by rfl, hread]
    rfl

end Transfer

end Kept
end Mewtual
