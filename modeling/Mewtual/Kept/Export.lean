import Mewtual.Kept.Plan
import Mewtual.Lib.Text

/-!
# The export journal of a download

A completed private download is saved to a file the user can see. The journal sealed in its
record names the destination folder, both leaf names, the identity of the partial file and a
checkpoint; until the export begins, the record may remember a planned destination instead.

Main results:

- Theorem {lit}`ExportJournal.accepts_get`, {lit}`Export.accepts_get`,
  {lit}`PlannedDestination.accepts_get`: what is accepted is the encoding of what passes its
  validator.
-/

namespace Mewtual
namespace Kept

variable {input left : Bytes}

/-! ## Text fields -/

def putText (text : String) : Bytes := framed (textBytes text)

def getText : Reader StorageError String := do
  let bytes ← orMalformed getBytes
  match String.fromUTF8? ⟨bytes.toArray⟩ with
  | some text => pure text
  | none => throw .malformed

@[simp] theorem accepts_getText {text : String} : Accepts getText input text left ↔
    input = putText text ++ left ∧ text.utf8ByteSize < 2 ^ 32 := by
  have hfound (bytes after : Bytes) : Accepts (ε := StorageError)
      (match String.fromUTF8? ⟨bytes.toArray⟩ with
      | some found => pure found
      | none => throw .malformed) after text left ↔
        bytes = textBytes text ∧ after = left := by
    rw [← fromUTF8_eq_some]
    cases String.fromUTF8? ⟨bytes.toArray⟩ <;> simp
  simp [getText, putText, hfound, length_textBytes]

/-! ## Leaf names -/

def maxFolderBytes : Nat := 16 * 1024

def maxLeafBytes : Nat := 1024

def stagingSuffix : String := ".mewtual-part"

def stagingFor (finalLeaf : String) : String := finalLeaf ++ stagingSuffix

/-- The control characters of Unicode. -/
def isControl (char : Char) : Bool :=
  decide (char.toNat < 0x20) || (decide (0x7f ≤ char.toNat) && decide (char.toNat < 0xa0))

/-- The less-than and greater-than signs, colon, double quote, slash, backslash, bar, question
mark and asterisk. -/
def isReserved (char : Char) : Bool :=
  [0x3c, 0x3e, 0x3a, 0x22, 0x2f, 0x5c, 0x7c, 0x3f, 0x2a].contains char.toNat

/-- The white space of Unicode. -/
def isWhiteSpace (char : Char) : Bool :=
  let code := char.toNat
  (decide (0x09 ≤ code) && decide (code ≤ 0x0d)) ||
    (decide (0x2000 ≤ code) && decide (code ≤ 0x200a)) ||
    [0x20, 0x85, 0xa0, 0x1680, 0x2028, 0x2029, 0x202f, 0x205f, 0x3000].contains code

/-- The digits that number a device, among them the superscripts one, two and three. -/
def isDeviceDigit (char : Char) : Bool :=
  char.isDigit || [0xb9, 0xb2, 0xb3].contains char.toNat

/-- The names Windows reserves for devices, with any extension. -/
def windowsDeviceName (leaf : String) : Bool :=
  let first := leaf.toList.takeWhile fun char => char ≠ '.'
  let stem := ((first.reverse.dropWhile isWhiteSpace).reverse).map Char.toUpper
  let numbered := ["COM".toList, "LPT".toList].contains (stem.take 3) &&
    match stem.drop 3 with
    | [digit] => isDeviceDigit digit
    | _ => false
  (["CON", "PRN", "AUX", "NUL", "CONIN$", "CONOUT$"].map String.toList).contains stem || numbered

/-- A leaf the journal may name. A text without separators that is neither empty nor a dot name is
one normal path component, so the source's test of the components adds nothing. -/
def validLeaf (leaf : String) : Bool :=
  !leaf.isEmpty && decide (leaf.utf8ByteSize ≤ maxLeafBytes) && leaf ≠ "." && leaf ≠ ".." &&
    !(leaf.toList.getLast?.any fun char => char = '.' || char = ' ') &&
    !(leaf.toList.any fun char => isControl char || isReserved char) &&
    !windowsDeviceName leaf

theorem size_of_validLeaf {leaf : String} (h : validLeaf leaf = true) :
    leaf.utf8ByteSize ≤ maxLeafBytes := by
  unfold validLeaf at h
  simp only [Bool.and_eq_true, decide_eq_true_eq] at h
  exact h.1.1.1.1.1.2

/-! ## File identities -/

def platformWindows : UInt8 := 1

def platformUnix : UInt8 := 2

/-- The identity of a file as an open handle reports it. Only the two known platforms report
one. -/
structure FileIdentity where
  platform : UInt8
  volume : UInt64
  id : Fixed 16
  known : platform = platformWindows ∨ platform = platformUnix
deriving DecidableEq

namespace FileIdentity

/-- The volume is written least significant byte first. -/
def encode (identity : FileIdentity) : Bytes :=
  identity.platform :: ((putU64 identity.volume).reverse ++ fixedBytes identity.id)

/-- Decode the identity of a file. -/
def decode : Bytes → Option FileIdentity
  | [] => none
  | platform :: rest =>
    if h : rest.length = 24 ∧ (platform = platformWindows ∨ platform = platformUnix) then
      some ⟨platform, UInt64.ofNat (beNat (rest.take 8).reverse),
        BitVec.ofNat (8 * 16) (beNat (rest.drop 8)), h.2⟩
    else none

@[simp] theorem length_encode (identity : FileIdentity) : identity.encode.length = 25 := by
  simp [encode]

theorem decode_eq_some {bytes : Bytes} {identity : FileIdentity} :
    decode bytes = some identity ↔ bytes = identity.encode := by
  constructor
  · intro h
    cases bytes with
    | nil => cases h
    | cons platform rest =>
      unfold decode at h
      dsimp only at h
      split at h
      · rename_i hshape
        cases h
        have hvolume : (rest.take 8).reverse.length = 8 := by
          rw [List.length_reverse, List.length_take]
          omega
        have hid : (rest.drop 8).length = 16 := by
          rw [List.length_drop]
          omega
        have hnumber : Accepts getU64 (rest.take 8).reverse
            (UInt64.ofNat (beNat (rest.take 8).reverse)) [] := by
          simp [getU64, getInt, hvolume]
        have hput := (accepts_getU64.mp hnumber).symm
        rw [List.append_nil] at hput
        unfold encode
        dsimp only
        rw [hput, fixedBytes_ofNat hid, List.reverse_reverse, List.take_append_drop]
      · cases h
  · rintro rfl
    obtain ⟨platform, volume, id, hknown⟩ := identity
    have hvolume : ((putU64 volume).reverse ++ fixedBytes id).take 8 = (putU64 volume).reverse :=
      List.take_left' (by simp)
    have hid : ((putU64 volume).reverse ++ fixedBytes id).drop 8 = fixedBytes id :=
      List.drop_left' (by simp)
    have hnumber : UInt64.ofNat (beNat (putU64 volume)) = volume := by
      rw [putU64, beNat_beBytes volume.toNat_lt, UInt64.ofNat_toNat]
    unfold decode encode
    dsimp only
    rw [dif_pos ⟨by simp, hknown⟩]
    simp only [hvolume, hid, List.reverse_reverse, hnumber, beNat_fixedBytes]
    simp

def put (identity : FileIdentity) : Bytes := framed identity.encode

def get : Reader StorageError FileIdentity := do
  let bytes ← orMalformed getBytes
  match decode bytes with
  | some identity => pure identity
  | none => throw .malformed

@[simp] theorem accepts_get {identity : FileIdentity} :
    Accepts get input identity left ↔ input = identity.put ++ left := by
  have hfound (bytes after : Bytes) : Accepts (ε := StorageError) (match decode bytes with
      | some found => pure found
      | none => throw .malformed) after identity left ↔
        bytes = identity.encode ∧ after = left := by
    rw [← decode_eq_some]
    cases decode bytes <;> simp
  simp [get, put, hfound]

@[simp] theorem length_put (identity : FileIdentity) : identity.put.length = 29 := by
  simp [put]

end FileIdentity

/-! ## Journals -/

def exportMaxBytes : Nat := chunkLimit * chunkPadCeiling

/-- Why an export stopped and needs the user. -/
inductive ExportHalt where
  | unavailable
  | changed
deriving DecidableEq

/-- The byte that stands for a halt. -/
def putHalt : Option ExportHalt → UInt8
  | none => 0
  | some .unavailable => 1
  | some .changed => 2

/-- Read the byte of a halt. -/
def getHalt : Reader StorageError (Option ExportHalt) := do
  let byte ← orMalformed getU8
  if byte = 0 then pure none
  else if byte = 1 then pure (some .unavailable)
  else if byte = 2 then pure (some .changed)
  else throw .malformed

@[simp] theorem accepts_getHalt {halt : Option ExportHalt} :
    Accepts getHalt input halt left ↔ input = putU8 (putHalt halt) ++ left := by
  rcases halt with - | (- | -) <;> simp [getHalt, putHalt]

/-- The sealed export journal. -/
structure ExportJournal where
  folder : Bytes
  folderId : FileIdentity
  staging : String
  finalLeaf : String
  fileId : FileIdentity
  writtenChunks : UInt32
  writtenBytes : UInt64
  halt : Option ExportHalt
deriving DecidableEq

namespace ExportJournal

/-- The four fields that name the destination object. -/
def sameDestination (journal other : ExportJournal) : Bool :=
  journal.folder = other.folder && journal.folderId = other.folderId &&
    journal.staging = other.staging && journal.fileId = other.fileId

/-- Structural bounds. Bytes imply whole chunks; a chunk without bytes is the empty file. -/
def valid (journal : ExportJournal) : Bool :=
  journal.folder ≠ [] && decide (journal.folder.length ≤ maxFolderBytes) &&
    journal.folderId.platform = journal.fileId.platform && validLeaf journal.staging &&
    validLeaf journal.finalLeaf &&
    stagingSuffix.toList.isSuffixOf journal.staging.toList &&
    journal.staging ≠ journal.finalLeaf &&
    decide (journal.writtenBytes.toNat ≤ exportMaxBytes) &&
    (journal.writtenBytes = 0 || decide (0 < journal.writtenChunks.toNat))

/-- The bytes of an export journal. -/
def put (journal : ExportJournal) : Bytes :=
  framed journal.folder ++ (journal.folderId.put ++ (putText journal.staging
    ++ (putText journal.finalLeaf ++ (journal.fileId.put ++ (putU32 journal.writtenChunks
      ++ (putU64 journal.writtenBytes ++ putU8 (putHalt journal.halt)))))))

/-- Read an export journal. -/
def get : Reader StorageError ExportJournal := do
  let folder ← orMalformed getBytes
  let folderId ← FileIdentity.get
  let staging ← getText
  let finalLeaf ← getText
  let fileId ← FileIdentity.get
  let writtenChunks ← orMalformed getU32
  let writtenBytes ← orMalformed getU64
  let halt ← getHalt
  let journal : ExportJournal :=
    ⟨folder, folderId, staging, finalLeaf, fileId, writtenChunks, writtenBytes, halt⟩
  if ¬ journal.valid then throw .malformed
  pure journal

/-- What the validator bounds. -/
theorem bounds_of_valid {journal : ExportJournal} (h : journal.valid = true) :
    journal.folder.length ≤ maxFolderBytes ∧ journal.staging.utf8ByteSize ≤ maxLeafBytes ∧
      journal.finalLeaf.utf8ByteSize ≤ maxLeafBytes := by
  unfold valid at h
  simp only [Bool.and_eq_true, decide_eq_true_eq] at h
  obtain ⟨⟨⟨⟨⟨⟨⟨⟨-, hfolder⟩, -⟩, hstaging⟩, hfinal⟩, -⟩, -⟩, -⟩, -⟩ := h
  exact ⟨hfolder, size_of_validLeaf hstaging, size_of_validLeaf hfinal⟩

/-- A journal is accepted exactly behind its encoding, and if it is valid. -/
@[simp] theorem accepts_get {journal : ExportJournal} : Accepts get input journal left ↔
    input = journal.put ++ left ∧ journal.valid = true := by
  have hbounds := @bounds_of_valid journal
  unfold maxFolderBytes maxLeafBytes at hbounds
  cases journal
  simp [get, put]
  grind

theorem length_put_le {journal : ExportJournal} (h : journal.valid = true) :
    journal.put.length ≤ 18515 := by
  obtain ⟨hfolder, hstaging, hfinal⟩ := bounds_of_valid h
  unfold maxFolderBytes at hfolder
  unfold maxLeafBytes at hstaging hfinal
  simp only [put, putText, List.length_append, length_framed, FileIdentity.length_put,
    length_textBytes, length_putU32, length_putU64, length_putU8]
  omega

end ExportJournal

/-- The durable export state of one download record. -/
inductive Export where
  | none
  | writing (journal : ExportJournal)
  | published (journal : ExportJournal)
deriving DecidableEq

namespace Export

/-- The journal of an export, if it has one. -/
def journal : Export → Option ExportJournal
  | .none => Option.none
  | .writing journal | .published journal => some journal

/-- The bytes of an export. -/
def put : Export → Bytes
  | .none => putU8 0
  | .writing journal => putU8 1 ++ journal.put
  | .published journal => putU8 2 ++ journal.put

/-- Read an export. -/
def get : Reader StorageError Export := do
  let tag ← orMalformed getU8
  if tag = 0 then pure .none
  else if tag = 1 then do
    let journal ← ExportJournal.get
    pure (.writing journal)
  else if tag = 2 then do
    let journal ← ExportJournal.get
    pure (.published journal)
  else throw .malformed

/-- An export state is accepted exactly behind its encoding, and if its journal is valid. -/
@[simp] theorem accepts_get {value : Export} : Accepts get input value left ↔
    input = value.put ++ left ∧ ∀ journal ∈ value.journal, journal.valid = true := by
  cases value <;> simp [get, put, journal]

theorem length_put_le {value : Export} (h : ∀ journal ∈ value.journal, journal.valid = true) :
    value.put.length ≤ 18516 := by
  cases value with
  | none => simp [put]
  | writing journal | published journal =>
    have hjournal := ExportJournal.length_put_le (h journal rfl)
    rw [put, List.length_append, length_putU8]
    omega

end Export

/-! ## Planned destinations -/

/-- A remembered destination of a download whose export has not begun. -/
structure PlannedDestination where
  platform : UInt8
  folder : Bytes
  folderId : Option FileIdentity
  name : String
deriving DecidableEq

namespace PlannedDestination

/-- A destination whose names are valid. -/
def valid (planned : PlannedDestination) : Bool :=
  (planned.platform = platformWindows || planned.platform = platformUnix) &&
    planned.folder ≠ [] && decide (planned.folder.length ≤ maxFolderBytes) &&
    planned.folderId.all (fun id => id.platform = planned.platform) &&
    validLeaf planned.name && validLeaf (stagingFor planned.name)

/-- The export may only begin with the journal that was made from this plan. -/
def matchesJournal (planned : PlannedDestination) (journal : ExportJournal) : Bool :=
  planned.platform = journal.folderId.platform && planned.folder = journal.folder &&
    planned.folderId = some journal.folderId && planned.name = journal.finalLeaf &&
    journal.staging = stagingFor planned.name

def putFolderId : Option FileIdentity → Bytes
  | none => putU8 0
  | some identity => putU8 1 ++ identity.put

def getFolderId : Reader StorageError (Option FileIdentity) := do
  let tag ← orMalformed getU8
  if tag = 0 then pure none
  else if tag = 1 then do
    let identity ← FileIdentity.get
    pure (some identity)
  else throw .malformed

/-- The bytes of a planned destination. -/
def put (planned : PlannedDestination) : Bytes :=
  putU8 planned.platform ++ (framed planned.folder ++ (putFolderId planned.folderId
    ++ putText planned.name))

/-- Read a planned destination. -/
def get : Reader StorageError PlannedDestination := do
  let platform ← orMalformed getU8
  let folder ← orMalformed getBytes
  let folderId ← getFolderId
  let name ← getText
  let planned : PlannedDestination := ⟨platform, folder, folderId, name⟩
  if ¬ planned.valid then throw .malformed
  pure planned

@[simp] theorem accepts_getFolderId {folderId : Option FileIdentity} :
    Accepts getFolderId input folderId left ↔ input = putFolderId folderId ++ left := by
  cases folderId <;> simp [getFolderId, putFolderId]

variable {planned : PlannedDestination}

theorem bounds_of_valid (h : planned.valid = true) :
    planned.folder.length ≤ maxFolderBytes ∧ planned.name.utf8ByteSize ≤ maxLeafBytes := by
  unfold valid at h
  simp only [Bool.and_eq_true, decide_eq_true_eq] at h
  obtain ⟨⟨⟨⟨-, hfolder⟩, -⟩, hname⟩, -⟩ := h
  exact ⟨hfolder, size_of_validLeaf hname⟩

/-- A planned destination is accepted exactly behind its encoding, and if it is valid. -/
@[simp] theorem accepts_get : Accepts get input planned left ↔
    input = planned.put ++ left ∧ planned.valid = true := by
  have hbounds := @bounds_of_valid planned
  unfold maxFolderBytes maxLeafBytes at hbounds
  cases planned
  simp [get, put]
  grind

theorem length_putFolderId_le (folderId : Option FileIdentity) :
    (putFolderId folderId).length ≤ 30 := by
  cases folderId <;> simp [putFolderId]

theorem length_put_le (h : planned.valid = true) : planned.put.length ≤ 17447 := by
  obtain ⟨hfolder, hname⟩ := bounds_of_valid h
  have hid := length_putFolderId_le planned.folderId
  unfold maxFolderBytes at hfolder
  unfold maxLeafBytes at hname
  simp only [put, putText, List.length_append, length_framed, length_textBytes, length_putU8]
  omega

end PlannedDestination

end Kept
end Mewtual
