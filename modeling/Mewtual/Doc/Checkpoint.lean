import Mewtual.Doc.BoundedChange
import Mewtual.Lib.MapMoves
import Mewtual.Lib.Text
import Mewtual.Registry.Unit

/-!
# Checkpoint seeds

A checkpoint opens an epoch with one change of fixed shape, written under an actor that its document
identifier determines. The document library is a parameter: of a change it gives the bytes and hash
it commits, the fields it parses, and the root map that an empty document has after the change.

The root map gives each key its concurrent values.

Main results:

- Theorem {lit}`CheckpointSeed.apply_build`: a seed reads as what it was built from.
- Theorem {lit}`CheckpointSeed.build_of_valid`: a seed of valid fields is built.
-/

namespace Mewtual

open Std

/-! ## Root maps -/

/-- Scalar values of the document library. -/
inductive ScalarValue where
  | bytes (value : Bytes)
  | str (text : Bytes)
  | uint (value : UInt64)
  | boolean (value : Bool)
  | other (tag : UInt8) (payload : Bytes)
deriving DecidableEq

/-- A value of a root key. -/
inductive Value where
  | scalar (value : ScalarValue)
  | object
deriving DecidableEq

/-- The concurrent values at each key. -/
structure RootMap where
  values : ExtTreeMap Bytes (List Value)
  nonempty : ∀ (key : Bytes) (list : List Value), values[key]? = some list → list ≠ []

/-- The root map of an empty document after some puts. -/
def RootMap.written (puts : List (Bytes × ScalarValue)) : RootMap where
  values := insertAll ∅ (puts.map fun put => (put.1, [.scalar put.2]))
  nonempty key list h := by
    rcases mem_of_insertAll h with hmem | hempty
    · obtain ⟨put, -, hput⟩ := List.mem_map.mp hmem
      cases hput
      exact List.cons_ne_nil _ _
    · simp at hempty

/-- What a map of puts is read as. -/
theorem RootMap.getElem?_written {map : ExtTreeMap Bytes ScalarValue} {key : Bytes}
    {list : List Value} :
    (written map.toList).values[key]? = some list ↔
      ∃ value, map[key]? = some value ∧ list = [.scalar value] := by
  have hmem : ∀ list, (key, list) ∈ map.toList.map (fun put => (put.1, [Value.scalar put.2])) ↔
      ∃ value, map[key]? = some value ∧ list = [.scalar value] := by
    intro list
    rw [List.mem_map]
    constructor
    · rintro ⟨⟨other, value⟩, hput, hsame⟩
      cases hsame
      exact ⟨value, ExtTreeMap.mem_toList_iff_getElem?_eq_some.mp hput, rfl⟩
    · rintro ⟨value, hvalue, rfl⟩
      exact ⟨(key, value), ExtTreeMap.mem_toList_iff_getElem?_eq_some.mpr hvalue, rfl⟩
  rw [← hmem]
  refine getElem?_insertAll fun left right hleft hright => ?_
  obtain ⟨value, hvalue, rfl⟩ := (hmem left).mp hleft
  obtain ⟨other, hother, rfl⟩ := (hmem right).mp hright
  rw [hvalue] at hother
  rw [Option.some.inj hother]

/-- The keys of operation markers begin so. -/
def markerStart : Bytes := asciiBytes "_p1/op/"

/-- A root key that marks an operation is refused. -/
def rejectMarkers (doc : RootMap) : Except ReplError Unit :=
  if doc.values.keys.any fun key => markerStart.isPrefixOf key then .error .malformed else .ok ()

/-! ## The document library -/

/-- What the library parses of a change. -/
structure ParsedChange where
  hash : Hash32
  rawBytes : Bytes
  actorId : Bytes
  seq : UInt64
  startOp : UInt64
  deps : List Hash32
  timestamp : Int64
  message : Option Bytes
  extraBytes : Bytes
  isEmpty : Bool
  /-- The map keys of its operations. -/
  mapKeys : List Bytes

structure ChangeLibrary where
  /-- Bytes and hash of the change with some puts at the root of an empty document, by an actor. -/
  commit : Bytes → List (Bytes × ScalarValue) → Option (Bytes × Hash32)
  parse : Bytes → Option ParsedChange
  /-- The root map of an empty document after a change. -/
  apply : Bytes → Except ReplError RootMap

/-- A committed change has the effect of its puts. -/
def ChangeLibrary.Replays (library : ChangeLibrary) : Prop :=
  ∀ (actor : Bytes) (puts : List (Bytes × ScalarValue)) (bytes : Bytes) (hash : Hash32),
    library.commit actor puts = some (bytes, hash) → library.apply bytes = .ok (.written puts)

/-! ## Seeds -/

def maxCheckpointBytes : Nat := 2 * 1024 * 1024

/-- Where a checkpoint comes from. -/
structure CheckpointOrigin where
  document : LogicalDocument
  epoch : UInt64
  closeHash : Hash32
  seedHash : Hash32
deriving DecidableEq

/-- A locally constructed seed candidate. -/
structure CheckpointSeed where
  origin : CheckpointOrigin
  bytes : Bytes
deriving DecidableEq

/-- The document identifier of a successor epoch. -/
def CheckpointOrigin.docId [Crypto] (origin : CheckpointOrigin) : Fixed 16 :=
  epochId origin.document.docType origin.document.logicalKey origin.epoch origin.closeHash

/-- The actor of the seed of a document. -/
def seedActor [Crypto] (docId : Fixed 16) : Hash32 :=
  hashParts "catcoms-seed-actor:v1" [fixedBytes docId]

/-- What every field of a parsed seed has to be. -/
def ParsedChange.isSeed [Crypto] (change : ParsedChange) (origin : CheckpointOrigin)
    (hash : Hash32) (bytes : Bytes) : Bool :=
  change.hash = hash && change.rawBytes = bytes &&
    change.actorId = fixedBytes (seedActor origin.docId) && change.seq = 1 &&
    change.startOp = 1 && change.deps.isEmpty && change.timestamp = 0 &&
    change.message.all List.isEmpty && change.extraBytes.isEmpty && !change.isEmpty &&
    change.mapKeys.all fun key => !markerStart.isPrefixOf key

/-- The hash of a raw change is taken from its kind byte on, and its first bytes are the
checksum. -/
def validateChange [Crypto] (library : ChangeLibrary) (origin : CheckpointOrigin)
    (bytes : Bytes) : Except ReplError ParsedChange :=
  if bytes.length > maxCheckpointBytes then .error .epochBound
  else if bytes.length < 10 ∨ bytes.take 4 ≠ [0x85, 0x6f, 0x4a, 0x83] ∨ bytes.getD 8 0 ≠ 1 then
    .error .malformed
  else
    let hash := Crypto.sha256 (bytes.drop 8)
    if hash ≠ origin.seedHash ∨ (bytes.drop 4).take 4 ≠ (fixedBytes hash).take 4 then
      .error .badSignature
    else do
      BoundedChange.check bytes 65536
      match library.parse bytes with
      | none => .error .malformed
      | some change =>
        if change.isSeed origin hash bytes = false then .error .malformed else .ok change

/-- Build the one change of a seed from its puts. -/
def CheckpointSeed.build [Crypto] (library : ChangeLibrary) (document : LogicalDocument)
    (checkpointEpoch : UInt64) (closeHash : Hash32) (puts : List (Bytes × ScalarValue)) :
    Except ReplError CheckpointSeed := do
  discard (LogicalDocument.new document.serverId document.docType document.logicalKey)
  if checkpointEpoch = 0 then .error .epochScope
  else
    let id := epochId document.docType document.logicalKey checkpointEpoch closeHash
    match library.commit (fixedBytes (seedActor id)) puts with
    | none => .error .noChange
    | some (bytes, hash) =>
      let origin := ⟨document, checkpointEpoch, closeHash, hash⟩
      discard (validateChange library origin bytes)
      rejectMarkers (.written puts)
      pure ⟨origin, bytes⟩

/-- A seed that is built reads as the puts it was built from. -/
theorem CheckpointSeed.apply_build [Crypto] {library : ChangeLibrary} (hreplays : library.Replays)
    {document : LogicalDocument} {checkpointEpoch : UInt64} {closeHash : Hash32}
    {puts : List (Bytes × ScalarValue)} {seed : CheckpointSeed}
    (h : build library document checkpointEpoch closeHash puts = .ok seed) :
    library.apply seed.bytes = .ok (.written puts) := by
  unfold build at h
  obtain ⟨_, -, h⟩ := bind_eq_ok.mp h
  obtain ⟨-, h⟩ := guard_eq_ok.mp h
  dsimp only at h
  split at h
  · cases h
  rename_i bytes hash hcommit
  obtain ⟨_, -, h⟩ := bind_eq_ok.mp h
  obtain ⟨_, -, h⟩ := bind_eq_ok.mp h
  cases h
  exact hreplays _ _ _ _ hcommit

/-- A bounded name and a change that passes every check give a seed. -/
theorem CheckpointSeed.build_of_valid [Crypto] {library : ChangeLibrary}
    {document : LogicalDocument} (hdocument : document.Bounded) {checkpointEpoch : UInt64}
    (hepoch : checkpointEpoch ≠ 0) {closeHash hash : Hash32}
    {puts : List (Bytes × ScalarValue)} {bytes : Bytes}
    (hcommit : library.commit (fixedBytes (seedActor
      (epochId document.docType document.logicalKey checkpointEpoch closeHash))) puts =
      some (bytes, hash))
    (hvalid : ∃ change, validateChange library ⟨document, checkpointEpoch, closeHash, hash⟩ bytes =
      .ok change)
    (hmarkers : rejectMarkers (.written puts) = .ok ()) :
    build library document checkpointEpoch closeHash puts =
      .ok ⟨⟨document, checkpointEpoch, closeHash, hash⟩, bytes⟩ := by
  obtain ⟨change, hchange⟩ := hvalid
  unfold build
  rw [hdocument.new_eq, if_neg hepoch]
  dsimp only
  rw [hcommit]
  dsimp only
  rw [hchange, hmarkers]
  rfl

end Mewtual
