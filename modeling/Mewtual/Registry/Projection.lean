import Mewtual.Doc.Checkpoint
import Mewtual.Registry.Pointer

/-!
# The projection of a registry bucket

A registry document has three kinds of keys for each pointer: a put, a tombstone and a seeded slot.
Reading the document gives the pointers of a bounded number of slots, the live keys that did not
fit, and the tombstones. The successor's seed is written from the pointers alone and gives each of
them its slot.

Main results:

- Theorem {lit}`RegistryProjection.read_stable`: what an accepted document is read as, and what its
  seed is read as again.
-/

namespace Mewtual

open Std

/-! ## Keys of the document -/

/-- The kinds of pointer fields. -/
inductive FieldKind where
  | put | tombstone | slot
deriving DecidableEq

def FieldKind.letter : FieldKind → UInt8
  | .put => 112
  | .tombstone => 100
  | .slot => 115

/-- The document key of a pointer field. -/
def fieldKey (kind : FieldKind) (key : PointerKey) : Bytes := kind.letter :: 47 :: key.suffix

/-- The fixed fields of a registry document. -/
def header (document : LogicalDocument) (bucket : UInt8) (epoch : UInt64) :
    List (Bytes × ScalarValue) :=
  [(asciiBytes "bucket", .uint bucket.toUInt64),
    (asciiBytes "epoch", .uint epoch),
    (asciiBytes "key", .str (hex document.logicalKey)),
    (asciiBytes "kind", .str (asciiBytes "registry")),
    (asciiBytes "v", .uint 1)]

/-! ## Reading -/

/-- What one key of the document is. -/
inductive Field where
  | header
  | marker
  | pointer (key : PointerKey) (epoch : UInt64)
  | tombstone (key : PointerKey)
  | slot (key : PointerKey)
deriving DecidableEq

/-- The largest of the epochs, all of which must be numbers. -/
def maxEpoch : UInt64 → List Value → Except ReplError UInt64
  | max, [] => .ok max
  | max, .scalar (.uint epoch) :: values => maxEpoch (if max < epoch then epoch else max) values
  | _, _ => .error .malformed

/-- Every concurrent value is the one expected. -/
def allEqual (values : List Value) (expected : ScalarValue) : Bool :=
  values.all fun value => value = .scalar expected

/-- What a pointer key holds. -/
def classifyPointer (kind : Bytes) (key : PointerKey) (values : List Value) :
    Except ReplError Field :=
  if kind = [FieldKind.put.letter] then do
    let epoch ← maxEpoch 0 values
    pure (.pointer key epoch)
  else if kind = [FieldKind.tombstone.letter] ∨ kind = [FieldKind.slot.letter] then
    if allEqual values (.boolean true) = false then .error .malformed
    else if kind = [FieldKind.tombstone.letter] then .ok (.tombstone key)
    else .ok (.slot key)
  else .error .malformed

/-- What a root key is. -/
def classify [Crypto] (headers : List (Bytes × ScalarValue)) (bucket : UInt8) (key : Bytes)
    (values : List Value) : Except ReplError Field :=
  match headers.lookup key with
  | some expected => if allEqual values expected = false then .error .epochScope else .ok .header
  | none =>
    match stripStart markerStart key with
    | some id => do
      let id ← PointerKey.unhex id
      if id.length ≠ 32 ∨ allEqual values (.uint 1) = false then .error .malformed
      else .ok .marker
    | none =>
      match splitOnce 47 key with
      | none => .error .malformed
      | some (kind, suffix) => do
        let pointer ← PointerKey.fromSuffix suffix
        if pointer.bucket ≠ bucket then .error .epochScope
        else classifyPointer kind pointer values

/-- Classify every root key. -/
def classifyAll [Crypto] (headers : List (Bytes × ScalarValue)) (bucket : UInt8) (doc : RootMap) :
    Except ReplError (List Field) :=
  doc.values.toList.mapM fun entry => classify headers bucket entry.1 entry.2

/-- What is gathered from all keys. -/
structure RegistryScan where
  entries : ExtTreeMap PointerKey UInt64
  slots : ExtTreeSet PointerKey
  tombstones : ExtTreeSet PointerKey
  headerCount : Nat

def Field.pointer? : Field → Option (PointerKey × UInt64)
  | .pointer key epoch => some (key, epoch)
  | _ => none

def Field.slot? : Field → Option PointerKey
  | .slot key => some key
  | _ => none

def Field.tombstone? : Field → Option PointerKey
  | .tombstone key => some key
  | _ => none

/-- Sort the fields by kind. -/
def RegistryScan.gather (fields : List Field) : RegistryScan where
  entries := insertAll ∅ (fields.filterMap Field.pointer?)
  slots := .ofList (fields.filterMap Field.slot?)
  tombstones := .ofList (fields.filterMap Field.tombstone?)
  headerCount := fields.countP (· = .header)

/-- A bounded visible projection with its overflow. -/
structure RegistryProjection where
  document : LogicalDocument
  bucket : UInt8
  epoch : UInt64
  pointers : ExtTreeMap PointerKey UInt64
  overflow : ExtTreeMap PointerKey UInt64
  tombstones : ExtTreeSet PointerKey

/-- The entries without a tombstone. -/
def RegistryScan.live (scan : RegistryScan) : ExtTreeMap PointerKey UInt64 :=
  scan.entries.filter fun key _ => !(scan.tombstones.contains key)

/-- Seeded slots come first, then the smallest of the other keys as long as there is room. -/
def RegistryScan.split (scan : RegistryScan) :
    ExtTreeMap PointerKey UInt64 × ExtTreeMap PointerKey UInt64 :=
  fill maxRegistryPointers (moveKeys scan.slots.toList (∅, scan.live))

/-- The conditions across keys that a scan must meet. -/
def RegistryScan.Refused (scan : RegistryScan) (headers : Nat) (epoch : UInt64) : Prop :=
  (scan.headerCount ≠ headers ∧
      (scan.entries.isEmpty = false ∨ scan.tombstones.isEmpty = false ∨ epoch ≠ 0)) ∨
    scan.slots.size > maxRegistryPointers ∨
    ∃ key ∈ scan.slots.toList, scan.entries.contains key = false

instance (scan : RegistryScan) (headers : Nat) (epoch : UInt64) :
    Decidable (scan.Refused headers epoch) := by
  unfold RegistryScan.Refused
  infer_instance

namespace RegistryProjection

/-- Read a projection out of a document. -/
def read [Crypto] (document : LogicalDocument) (bucket : UInt8) (epoch : UInt64) (doc : RootMap) :
    Except ReplError RegistryProjection := do
  let expected ← registryDocument document.serverId bucket
  if document ≠ expected ∨ epoch > maxRegistryEpoch then .error .epochScope
  else
    let headers := header document bucket epoch
    let fields ← classifyAll headers bucket doc
    let scan := RegistryScan.gather fields
    if scan.Refused headers.length epoch then .error .malformed
    else
      .ok {
        document := document
        bucket := bucket
        epoch := epoch
        pointers := scan.split.1
        overflow := scan.split.2
        tombstones := scan.tombstones }

/-! ## Writing the successor -/

/-- The fields of the successor's seed: a put and a slot for each pointer. -/
def seedFields (projection : RegistryProjection) (next : UInt64) : List (Bytes × ScalarValue) :=
  header projection.document projection.bucket next ++
    projection.pointers.toList.flatMap fun (key, value) =>
      [(fieldKey .put key, .uint value), (fieldKey .slot key, .boolean true)]

/-- The fields are written in the order of their keys. -/
def checkpoint [Crypto] (library : ChangeLibrary) (projection : RegistryProjection)
    (closeHash : Hash32) : Except ReplError CheckpointSeed :=
  match checkedAdd projection.epoch 1 with
  | none => .error .epochBound
  | some next =>
    if next > maxRegistryEpoch ∨ projection.pointers.size > maxRegistryPointers then
      .error .epochBound
    else if projection.pointers.keys.any fun key => key.bucket ≠ projection.bucket then
      .error .epochScope
    else
      CheckpointSeed.build library projection.document next closeHash
        (insertAll ∅ (projection.seedFields next)).toList

end RegistryProjection

/-! ## Keys and what they are classified as -/

theorem FieldKind.letter_injective {kind other : FieldKind} (h : kind.letter = other.letter) :
    kind = other := by
  cases kind <;> cases other <;> first | rfl | exact absurd h (by decide)

variable {key : PointerKey}

theorem fieldKey_injective {kind other : FieldKind} {pointer : PointerKey}
    (h : fieldKey kind key = fieldKey other pointer) : kind = other ∧ key = pointer := by
  unfold fieldKey at h
  obtain ⟨hletter, hrest⟩ := List.cons.inj h
  exact ⟨FieldKind.letter_injective hletter, PointerKey.suffix_injective (List.cons.inj hrest).2⟩

theorem lookup_header_fieldKey (document : LogicalDocument) (bucket : UInt8) (epoch : UInt64)
    (kind : FieldKind) (key : PointerKey) :
    (header document bucket epoch).lookup (fieldKey kind key) = none := by
  cases kind <;> rfl

theorem stripStart_fieldKey (kind : FieldKind) (key : PointerKey) :
    stripStart markerStart (fieldKey kind key) = none := by
  cases kind <;> rfl

theorem splitOnce_fieldKey (kind : FieldKind) (key : PointerKey) :
    splitOnce 47 (fieldKey kind key) = some ([kind.letter], key.suffix) := by
  have hletter : (47 : UInt8) ∉ [kind.letter] := by
    cases kind <;> decide
  exact splitOnce_append hletter key.suffix

/-- The field of a pointer. -/
def Field.place : Field → Option (FieldKind × PointerKey)
  | .pointer key _ => some (.put, key)
  | .tombstone key => some (.tombstone, key)
  | .slot key => some (.slot, key)
  | .header | .marker => none

variable {values : List Value}

theorem classifyPointer_place {letters : Bytes} {field : Field}
    (h : classifyPointer letters key values = .ok field) :
    ∃ kind, letters = [kind.letter] ∧ field.place = some (kind, key) := by
  unfold classifyPointer at h
  split at h
  · rename_i hput
    obtain ⟨epoch, -, h⟩ := bind_eq_ok.mp h
    cases h
    exact ⟨.put, hput, rfl⟩
  split at h
  · rename_i hflag
    obtain ⟨-, h⟩ := guard_eq_ok.mp h
    split at h
    · rename_i htombstone
      cases h
      exact ⟨.tombstone, htombstone, rfl⟩
    · rename_i htombstone
      cases h
      exact ⟨.slot, hflag.resolve_left htombstone, rfl⟩
  · cases h

section Classify

variable [Crypto] {document : LogicalDocument} {bucket : UInt8} {epoch : UInt64}

theorem classify_fieldKey (kind : FieldKind) (key : PointerKey) (values : List Value) :
    classify (header document bucket epoch) bucket (fieldKey kind key) values =
      if key.bucket ≠ bucket then .error .epochScope
      else classifyPointer [kind.letter] key values := by
  unfold classify
  rw [lookup_header_fieldKey, stripStart_fieldKey, splitOnce_fieldKey]
  dsimp only
  rw [PointerKey.fromSuffix_suffix, ok_bind]

theorem key_of_classify {headers : List (Bytes × ScalarValue)} {text : Bytes}
    {values : List Value} {field : Field} {kind : FieldKind} {key : PointerKey}
    (h : classify headers bucket text values = .ok field)
    (hplace : field.place = some (kind, key)) :
    text = fieldKey kind key ∧ key.bucket = bucket ∧
      classifyPointer [kind.letter] key values = .ok field := by
  unfold classify at h
  split at h
  · obtain ⟨-, h⟩ := guard_eq_ok.mp h
    cases h
    cases hplace
  split at h
  · obtain ⟨id, -, h⟩ := bind_eq_ok.mp h
    obtain ⟨-, h⟩ := guard_eq_ok.mp h
    cases h
    cases hplace
  split at h
  · cases h
  rename_i letters suffix hsplit
  obtain ⟨pointer, hpointer, h⟩ := bind_eq_ok.mp h
  obtain ⟨hbucket, h⟩ := guard_eq_ok.mp h
  obtain ⟨found, rfl, hfound⟩ := classifyPointer_place h
  rw [hplace] at hfound
  cases hfound
  refine ⟨?_, not_not.mp hbucket, h⟩
  rw [eq_of_splitOnce hsplit, ← PointerKey.suffix_of_fromSuffix hpointer]
  rfl

variable {doc : RootMap} {fields : List Field} {kind : FieldKind} {key : PointerKey}
  (h : classifyAll (header document bucket epoch) bucket doc = .ok fields)

include h

theorem exists_field {values : List Value}
    (hvalues : doc.values[fieldKey kind key]? = some values) :
    ∃ field ∈ fields, classifyPointer [kind.letter] key values = .ok field := by
  have hentry : (fieldKey kind key, values) ∈ doc.values.toList :=
    ExtTreeMap.mem_toList_iff_getElem?_eq_some.mpr hvalues
  obtain ⟨field, hfield, hclassify⟩ := mem_of_mapM_eq_ok h hentry
  rw [classify_fieldKey] at hclassify
  exact ⟨field, hfield, (guard_eq_ok.mp hclassify).2⟩

/-- The fields of a pointer are those of its three keys. -/
theorem mem_fields {field : Field} (hplace : field.place = some (kind, key)) :
    field ∈ fields ↔ ∃ values : List Value, doc.values[fieldKey kind key]? = some values ∧
      classifyPointer [kind.letter] key values = .ok field := by
  constructor
  · intro hmem
    obtain ⟨⟨text, values⟩, hentry, hclassify⟩ := exists_of_mem_mapM h hmem
    obtain ⟨rfl, -, hpointer⟩ := key_of_classify hclassify hplace
    exact ⟨values, ExtTreeMap.mem_toList_iff_getElem?_eq_some.mp hentry, hpointer⟩
  · rintro ⟨values, hvalues, hpointer⟩
    obtain ⟨found, hfound, hsame⟩ := exists_field h hvalues
    rw [hpointer] at hsame
    cases hsame
    exact hfound

/-- What the three keys of a pointer say in an accepted document. -/
theorem mem_fields_pointer {value : UInt64} :
    .pointer key value ∈ fields ↔ ∃ values : List Value,
      doc.values[fieldKey .put key]? = some values ∧ maxEpoch 0 values = .ok value := by
  rw [mem_fields h (rfl : (Field.pointer key value).place = some (.put, key))]
  refine exists_congr fun values => and_congr_right fun _ => ?_
  unfold classifyPointer
  rw [if_pos rfl, bind_eq_ok]
  constructor
  · rintro ⟨found, hfound, hsame⟩
    cases hsame
    exact hfound
  · intro hmax
    exact ⟨value, hmax, rfl⟩

theorem mem_fields_flag {field : Field} (hplace : field.place = some (kind, key))
    (hkind : kind ≠ .put) :
    field ∈ fields ↔ fieldKey kind key ∈ doc.values := by
  rw [mem_iff_getElem?]
  constructor
  · intro hmem
    obtain ⟨values, hvalues, -⟩ := (mem_fields h hplace).mp hmem
    exact ⟨values, hvalues⟩
  · rintro ⟨values, hvalues⟩
    obtain ⟨found, hfound, hpointer⟩ := exists_field h hvalues
    obtain ⟨other, hletter, hother⟩ := classifyPointer_place hpointer
    cases FieldKind.letter_injective (List.cons.inj hletter).1
    have hsame : found = field := by
      cases found <;> cases field <;> cases hother <;> cases hplace <;>
        first | rfl | exact absurd rfl hkind
    exact hsame ▸ hfound

end Classify

/-! ## What a scan gathers -/

variable {fields : List Field}

/-- What is picked from one field only. -/
theorem mem_filterMap_iff {α : Type} {pick : Field → Option α} {value : α} {field : Field}
    (hpick : ∀ found, pick found = some value ↔ found = field) :
    value ∈ fields.filterMap pick ↔ field ∈ fields := by
  simp only [List.mem_filterMap, hpick, exists_eq_right]

theorem mem_slots_gather : key ∈ (RegistryScan.gather fields).slots ↔ .slot key ∈ fields := by
  unfold RegistryScan.gather
  rw [mem_ofList]
  exact mem_filterMap_iff fun field => by cases field <;> simp [Field.slot?]

theorem mem_tombstones_gather :
    key ∈ (RegistryScan.gather fields).tombstones ↔ .tombstone key ∈ fields := by
  unfold RegistryScan.gather
  rw [mem_ofList]
  exact mem_filterMap_iff fun field => by cases field <;> simp [Field.tombstone?]

theorem mem_pointers_filterMap {value : UInt64} :
    (key, value) ∈ fields.filterMap Field.pointer? ↔ .pointer key value ∈ fields :=
  mem_filterMap_iff fun field => by cases field <;> simp [Field.pointer?]

theorem entries_gather [Crypto] {document : LogicalDocument} {bucket : UInt8} {epoch : UInt64}
    {doc : RootMap} (h : classifyAll (header document bucket epoch) bucket doc = .ok fields)
    {value : UInt64} :
    (RegistryScan.gather fields).entries[key]? = some value ↔ .pointer key value ∈ fields := by
  rw [← mem_pointers_filterMap]
  refine getElem?_insertAll fun left right hleft hright => ?_
  rw [mem_pointers_filterMap, mem_fields_pointer h] at hleft hright
  obtain ⟨values, hvalues, hleft⟩ := hleft
  obtain ⟨others, hothers, hright⟩ := hright
  rw [hvalues] at hothers
  cases hothers
  rw [hleft] at hright
  exact Except.ok.inj hright

/-! ## How the live keys are split -/

/-- Pointers and overflow are the live entries; seeded slots are pointers, and nothing overflows
before all slots are used. -/
structure RegistryScan.IsSplit (scan : RegistryScan)
    (pointers overflow : ExtTreeMap PointerKey UInt64) : Prop where
  live : ∀ (key : PointerKey) (value : UInt64),
    (pointers[key]? = some value ∨ overflow[key]? = some value) ↔
      scan.entries[key]? = some value ∧ key ∉ scan.tombstones
  disjoint : ∀ key : PointerKey, pointers[key]? = none ∨ overflow[key]? = none
  seeded : ∀ key ∈ scan.slots, ∀ value : UInt64, scan.entries[key]? = some value →
    key ∉ scan.tombstones → pointers[key]? = some value
  full : overflow ≠ ∅ → pointers.size = maxRegistryPointers
  bounded : pointers.size ≤ maxRegistryPointers

theorem RegistryScan.getElem?_live {scan : RegistryScan} {value : UInt64} :
    scan.live[key]? = some value ↔ scan.entries[key]? = some value ∧ key ∉ scan.tombstones := by
  unfold live
  rw [ExtTreeMap.getElem?_filter', Option.filter_eq_some_iff, Bool.not_eq_true',
    ← Bool.not_eq_true, ExtTreeSet.contains_iff_mem]

theorem RegistryScan.split_isSplit {scan : RegistryScan}
    (hslots : scan.slots.size ≤ maxRegistryPointers) :
    scan.IsSplit scan.split.1 scan.split.2 := by
  have hempty : MapsDisjoint ((∅ : ExtTreeMap PointerKey UInt64), scan.live) :=
    fun key => .inl (by simp)
  have hdisjoint := moveKeys_disjoint hempty scan.slots.toList
  have hsize : (moveKeys scan.slots.toList (∅, scan.live)).1.size ≤ maxRegistryPointers := by
    have hmove := size_moveKeys_le (∅, scan.live) scan.slots.toList
    rw [ExtTreeSet.length_toList, ExtTreeMap.size_empty] at hmove
    omega
  obtain ⟨hbounded, hfull⟩ := size_fill hdisjoint hsize
  refine ⟨fun key value => ?_, moveKeys_disjoint hdisjoint _,
    fun key hslot value hentry htomb => ?_,
    hfull, hbounded⟩
  · unfold split fill
    rw [moveKeys_or hdisjoint, moveKeys_or hempty, ← getElem?_live]
    simp
  · refine moveKeys_keeps hdisjoint _ ?_
    rw [getElem?_moveKeys_left, if_pos (ExtTreeSet.mem_toList.mpr hslot),
      getElem?_live.mpr ⟨hentry, htomb⟩]
    rfl

/-! ## Concurrent values -/

theorem maxEpoch_uint (start epoch : UInt64) (values : List Value) :
    maxEpoch start (.scalar (.uint epoch) :: values) =
      maxEpoch (if start < epoch then epoch else start) values := rfl

variable {max : UInt64}

theorem uint_of_maxEpoch {start : UInt64} {value : Value}
    (h : maxEpoch start (value :: values) = .ok max) : ∃ epoch, value = .scalar (.uint epoch) := by
  cases value with
  | object => cases h
  | scalar scalar =>
    cases scalar with
    | uint epoch => exact ⟨epoch, rfl⟩
    | _ => cases h

theorem maxEpoch_eq_ok {start : UInt64} : maxEpoch start values = .ok max ↔
      start ≤ max ∧ (∀ value ∈ values, ∃ epoch, epoch ≤ max ∧ value = .scalar (.uint epoch)) ∧
        (max = start ∨ .scalar (.uint max) ∈ values) := by
  induction values generalizing start with
  | nil =>
    simp only [maxEpoch]
    grind
  | cons value values ih =>
    by_cases huint : ∃ epoch, value = .scalar (.uint epoch)
    · obtain ⟨epoch, rfl⟩ := huint
      rw [maxEpoch_uint, ih, List.forall_mem_cons, List.mem_cons]
      grind
    · refine iff_of_false (fun h => huint (uint_of_maxEpoch h)) fun ⟨_, hall, _⟩ => huint ?_
      exact (hall value List.mem_cons_self).imp fun _ hepoch => hepoch.2

/-- A key is put, and the value is the largest of its concurrent ones. -/
def RootMap.LargestPut (doc : RootMap) (key : PointerKey) (value : UInt64) : Prop :=
  ∃ values : List Value, doc.values[fieldKey .put key]? = some values ∧
    .scalar (.uint value) ∈ values ∧
    ∀ other ∈ values, ∃ epoch, epoch ≤ value ∧ other = .scalar (.uint epoch)

theorem maxEpoch_zero_iff (hne : values ≠ []) :
    maxEpoch 0 values = .ok max ↔ .scalar (.uint max) ∈ values ∧
      ∀ other ∈ values, ∃ epoch, epoch ≤ max ∧ other = .scalar (.uint epoch) := by
  rw [maxEpoch_eq_ok]
  constructor
  · rintro ⟨-, hall, rfl | hmem⟩
    · obtain ⟨first, rest, rfl⟩ := List.exists_cons_of_ne_nil hne
      obtain ⟨epoch, hle, rfl⟩ := hall first List.mem_cons_self
      cases UInt64.le_antisymm hle UInt64.zero_le
      exact ⟨List.mem_cons_self, hall⟩
    · exact ⟨hmem, hall⟩
  · rintro ⟨hmem, hall⟩
    exact ⟨UInt64.zero_le, hall, .inr hmem⟩

namespace RegistryProjection

/-! ## What is read -/

variable {projection : RegistryProjection} {document : LogicalDocument} {epoch : UInt64}
  {bucket : UInt8} {next : UInt64}

variable {doc : RootMap} {text : Bytes}

theorem read_eq_ok [Crypto] : read document bucket epoch doc = .ok projection ↔
      registryDocument document.serverId bucket = .ok document ∧ ¬ epoch > maxRegistryEpoch ∧
      ∃ fields, classifyAll (header document bucket epoch) bucket doc = .ok fields ∧
        ¬ (RegistryScan.gather fields).Refused 5 epoch ∧
        projection = ⟨document, bucket, epoch, (RegistryScan.gather fields).split.1,
          (RegistryScan.gather fields).split.2, (RegistryScan.gather fields).tombstones⟩ := by
  constructor
  · intro h
    unfold read at h
    obtain ⟨expected, hexpected, h⟩ := bind_eq_ok.mp h
    obtain ⟨hscope, h⟩ := guard_eq_ok.mp h
    obtain ⟨fields, hfields, h⟩ := bind_eq_ok.mp h
    obtain ⟨haccepted, h⟩ := guard_eq_ok.mp h
    obtain ⟨hdocument, hepoch⟩ := not_or.mp hscope
    rw [← not_not.mp hdocument] at hexpected
    exact ⟨hexpected, hepoch, fields, hfields, haccepted, (Except.ok.inj h).symm⟩
  · rintro ⟨hdocument, hepoch, fields, hfields, haccepted, rfl⟩
    unfold read
    rw [hdocument, ok_bind, if_neg (not_or.mpr ⟨not_not.mpr rfl, hepoch⟩)]
    dsimp only
    rw [hfields, ok_bind]
    exact if_neg haccepted

/-! ## What the seed is read as -/

theorem mem_header_iff {key : Bytes} {value : ScalarValue} :
    (key, value) ∈ header document bucket epoch ↔
      (header document bucket epoch).lookup key = some value := by
  constructor
  · intro h
    unfold header at h
    simp only [List.mem_cons, Prod.mk.injEq, List.not_mem_nil, or_false] at h
    rcases h with ⟨rfl, rfl⟩ | ⟨rfl, rfl⟩ | ⟨rfl, rfl⟩ | ⟨rfl, rfl⟩ | ⟨rfl, rfl⟩ <;> rfl
  · intro h
    obtain ⟨before, after, hsplit, -⟩ := List.lookup_eq_some_iff.mp h
    rw [hsplit]
    exact List.mem_append_right _ List.mem_cons_self

/-- The fields of a seed are the header and the put and slot of each pointer. -/
theorem mem_seedFields {value : ScalarValue} : (text, value) ∈ projection.seedFields next ↔
      (header projection.document projection.bucket next).lookup text = some value ∨
      ∃ (key : PointerKey) (epoch : UInt64), projection.pointers[key]? = some epoch ∧
        (text = fieldKey .put key ∧ value = .uint epoch ∨
          text = fieldKey .slot key ∧ value = .boolean true) := by
  unfold seedFields
  rw [List.mem_append, mem_header_iff, List.mem_flatMap]
  refine or_congr_right ?_
  simp only [Prod.exists, ExtTreeMap.mem_toList_iff_getElem?_eq_some, List.mem_cons,
    Prod.mk.injEq, List.not_mem_nil, or_false]

/-- No key of a seed is given two values. -/
theorem seedFields_one {left right : ScalarValue}
    (hleft : (text, left) ∈ projection.seedFields next)
    (hright : (text, right) ∈ projection.seedFields next) : left = right := by
  rw [mem_seedFields] at hleft hright
  rcases hleft with hleft | ⟨key, epoch, hkey, ⟨rfl, rfl⟩ | ⟨rfl, rfl⟩⟩
  · rcases hright with hright | ⟨key, epoch, -, ⟨rfl, -⟩ | ⟨rfl, -⟩⟩
    · rw [hleft] at hright
      exact Option.some.inj hright
    all_goals
      rw [lookup_header_fieldKey] at hleft
      cases hleft
  all_goals
    rcases hright with hright | ⟨other, found, hother, ⟨hsame, rfl⟩ | ⟨hsame, rfl⟩⟩
    · rw [lookup_header_fieldKey] at hright
      cases hright
    all_goals
      obtain ⟨hkind, hpointer⟩ := fieldKey_injective hsame
      cases hkind
  · subst hpointer
    rw [hkey] at hother
    rw [Option.some.inj hother]
  · rfl

/-- The document a seed is read as. -/
def seedDoc (projection : RegistryProjection) (next : UInt64) : RootMap :=
  .written (insertAll ∅ (projection.seedFields next)).toList

theorem getElem?_seedDoc {values : List Value} :
    (projection.seedDoc next).values[text]? = some values ↔
      ∃ value, (text, value) ∈ projection.seedFields next ∧ values = [.scalar value] := by
  unfold seedDoc
  rw [RootMap.getElem?_written]
  refine exists_congr fun value => and_congr_left fun _ => ?_
  exact getElem?_insertAll fun left right hleft hright => seedFields_one hleft hright

theorem getElem?_seedDoc_fieldKey {kind : FieldKind} {key : PointerKey} {values : List Value} :
    (projection.seedDoc next).values[fieldKey kind key]? = some values ↔
      ∃ epoch : UInt64, projection.pointers[key]? = some epoch ∧
        (kind = .put ∧ values = [.scalar (.uint epoch)] ∨
          kind = .slot ∧ values = [.scalar (.boolean true)]) := by
  rw [getElem?_seedDoc]
  constructor
  · rintro ⟨value, hvalue, rfl⟩
    rcases mem_seedFields.mp hvalue with hheader | ⟨other, epoch, hother, ⟨hkey, rfl⟩ | ⟨hkey, rfl⟩⟩
    · rw [lookup_header_fieldKey] at hheader
      cases hheader
    · obtain ⟨rfl, rfl⟩ := fieldKey_injective hkey
      exact ⟨epoch, hother, .inl ⟨rfl, rfl⟩⟩
    · obtain ⟨rfl, rfl⟩ := fieldKey_injective hkey
      exact ⟨epoch, hother, .inr ⟨rfl, rfl⟩⟩
  · rintro ⟨epoch, hkey, ⟨rfl, rfl⟩ | ⟨rfl, rfl⟩⟩
    · exact ⟨_, mem_seedFields.mpr (.inr ⟨key, epoch, hkey, .inl ⟨rfl, rfl⟩⟩), rfl⟩
    · exact ⟨_, mem_seedFields.mpr (.inr ⟨key, epoch, hkey, .inr ⟨rfl, rfl⟩⟩), rfl⟩

theorem slot_mem_seedDoc {key : PointerKey} :
    fieldKey .slot key ∈ (projection.seedDoc next).values ↔ key ∈ projection.pointers := by
  rw [mem_iff_getElem?, mem_iff_getElem?]
  constructor
  · rintro ⟨values, hvalues⟩
    obtain ⟨epoch, hepoch, -⟩ := getElem?_seedDoc_fieldKey.mp hvalues
    exact ⟨epoch, hepoch⟩
  · rintro ⟨epoch, hepoch⟩
    exact ⟨_, getElem?_seedDoc_fieldKey.mpr ⟨epoch, hepoch, .inr ⟨rfl, rfl⟩⟩⟩

/-- A seed has no operation marker. -/
theorem rejectMarkers_seedDoc (projection : RegistryProjection) (next : UInt64) :
    rejectMarkers (projection.seedDoc next) = .ok () := by
  unfold rejectMarkers
  rw [if_neg]
  intro hany
  obtain ⟨text, htext, hmarker⟩ := List.any_eq_true.mp hany
  obtain ⟨values, hvalues⟩ := mem_iff_getElem?.mp (ExtTreeMap.mem_keys.mp htext)
  obtain ⟨value, hvalue, -⟩ := getElem?_seedDoc.mp hvalues
  rcases mem_seedFields.mp hvalue with hheader | ⟨key, epoch, -, ⟨rfl, -⟩ | ⟨rfl, -⟩⟩
  · have hkey := List.mem_map_of_mem (f := Prod.fst) (mem_header_iff.mpr hheader)
    have hnone : ∀ key ∈ (header projection.document projection.bucket next).map Prod.fst,
        markerStart.isPrefixOf key = false := by
      intro key hkey
      simp only [header, List.map_cons, List.map_nil, List.mem_cons, List.not_mem_nil,
        or_false] at hkey
      rcases hkey with rfl | rfl | rfl | rfl | rfl <;> rfl
    rw [hnone _ hkey] at hmarker
    cases hmarker
  · cases hmarker
  · cases hmarker

section Seed

variable [Crypto] {projection : RegistryProjection} {next : UInt64}

/-- Every key of a seed is classified. -/
theorem classify_seedDoc (next : UInt64)
    (hbucket : ∀ key : PointerKey, key ∈ projection.pointers → key.bucket = projection.bucket) :
    ∃ fields, classifyAll (header projection.document projection.bucket next) projection.bucket
      (projection.seedDoc next) = .ok fields := by
  refine exists_mapM_eq_ok fun ⟨text, values⟩ hentry => ?_
  obtain ⟨value, hvalue, rfl⟩ :=
    getElem?_seedDoc.mp (ExtTreeMap.mem_toList_iff_getElem?_eq_some.mp hentry)
  rcases mem_seedFields.mp hvalue with hheader | ⟨key, epoch, hkey, hfield⟩
  · refine ⟨.header, ?_⟩
    dsimp only [classify]
    rw [hheader]
    simp [allEqual]
  · have hmem : key ∈ projection.pointers := mem_iff_getElem?.mpr ⟨epoch, hkey⟩
    have hscope : ¬ key.bucket ≠ projection.bucket := not_not.mpr (hbucket key hmem)
    rcases hfield with ⟨rfl, rfl⟩ | ⟨rfl, rfl⟩
    · refine ⟨.pointer key (if 0 < epoch then epoch else 0), ?_⟩
      rw [classify_fieldKey, if_neg hscope]
      rfl
    · refine ⟨.slot key, ?_⟩
      rw [classify_fieldKey, if_neg hscope]
      rfl

theorem header_of_classify {headers : List (Bytes × ScalarValue)} {bucket : UInt8} {text : Bytes}
    {values : List Value} {field : Field} (h : classify headers bucket text values = .ok field) :
    field = .header ↔ (headers.lookup text).isSome = true := by
  unfold classify at h
  split at h
  · rename_i expected hlookup
    obtain ⟨-, h⟩ := guard_eq_ok.mp h
    cases h
    simp [hlookup]
  rename_i hlookup
  rw [hlookup]
  have hother : field ≠ .header := by
    split at h
    · obtain ⟨id, -, h⟩ := bind_eq_ok.mp h
      obtain ⟨-, h⟩ := guard_eq_ok.mp h
      cases h
      exact Field.noConfusion
    split at h
    · cases h
    obtain ⟨pointer, -, h⟩ := bind_eq_ok.mp h
    obtain ⟨-, h⟩ := guard_eq_ok.mp h
    obtain ⟨kind, -, hplace⟩ := classifyPointer_place h
    rintro rfl
    cases hplace
  exact ⟨fun h => absurd h hother, fun h => absurd h Bool.false_ne_true⟩

/-- The header count of a scan is the number of its header keys. -/
theorem headerCount_eq {headers : List (Bytes × ScalarValue)} {bucket : UInt8} {doc : RootMap}
    {fields : List Field} (h : classifyAll headers bucket doc = .ok fields) :
    (RegistryScan.gather fields).headerCount =
      (doc.values.keys.filter fun key => (headers.lookup key).isSome).length := by
  have hall := mapM_eq_ok_iff.mp h
  rw [← List.countP_eq_length_filter, ← ExtTreeMap.map_fst_toList_eq_keys]
  show fields.countP _ = _
  clear h
  generalize doc.values.toList = entries at hall
  induction hall with
  | nil => rfl
  | cons hfirst hrest ih =>
    rw [List.countP_cons, ih, List.map_cons, List.countP_cons]
    congr 2
    simp only [decide_eq_true_eq, header_of_classify hfirst]

theorem headerCount_seedDoc {fields : List Field}
    (h : classifyAll (header projection.document projection.bucket next) projection.bucket
      (projection.seedDoc next) = .ok fields) :
    (RegistryScan.gather fields).headerCount = 5 := by
  rw [headerCount_eq h]
  -- the header keys of the document and those of the header are the same distinct keys
  set headers := header projection.document projection.bucket next with hheaders
  have hdistinct : (headers.map Prod.fst).Nodup := by
    have hkeys :
        headers.map Prod.fst = ["bucket", "epoch", "key", "kind", "v"].map asciiBytes := rfl
    rw [hkeys]
    decide
  have hperm : ((projection.seedDoc next).values.keys.filter fun key =>
      (headers.lookup key).isSome).Perm (headers.map Prod.fst) := by
    rw [List.perm_ext_iff_of_nodup (List.Nodup.filter _ ExtTreeMap.nodup_keys) hdistinct]
    intro key
    rw [List.mem_filter, ExtTreeMap.mem_keys, mem_iff_getElem?, List.mem_map]
    constructor
    · rintro ⟨-, hlookup⟩
      obtain ⟨value, hvalue⟩ := Option.isSome_iff_exists.mp hlookup
      exact ⟨(key, value), mem_header_iff.mpr hvalue, rfl⟩
    · rintro ⟨⟨other, value⟩, hmem, rfl⟩
      have hlookup := mem_header_iff.mp hmem
      refine ⟨?_, Option.isSome_iff_exists.mpr ⟨value, hlookup⟩⟩
      exact ⟨_, getElem?_seedDoc.mpr ⟨value, mem_seedFields.mpr (.inl hlookup), rfl⟩⟩
  rw [hperm.length_eq]
  rfl

section Gathered

variable {fields : List Field}
  (hfields : classifyAll (header projection.document projection.bucket next) projection.bucket
    (projection.seedDoc next) = .ok fields)

include hfields

theorem entries_seedDoc : (RegistryScan.gather fields).entries = projection.pointers := by
  apply treeMap_ext
  intro key value
  rw [entries_gather hfields, mem_fields_pointer hfields]
  constructor
  · rintro ⟨values, hvalues, hmax⟩
    obtain ⟨epoch, hepoch, ⟨-, rfl⟩ | ⟨hkind, -⟩⟩ := getElem?_seedDoc_fieldKey.mp hvalues
    · obtain ⟨hmem, -⟩ := (maxEpoch_zero_iff (List.cons_ne_nil _ _)).mp hmax
      cases List.mem_singleton.mp hmem
      exact hepoch
    · cases hkind
  · intro hvalue
    refine ⟨_, getElem?_seedDoc_fieldKey.mpr ⟨value, hvalue, .inl ⟨rfl, rfl⟩⟩, ?_⟩
    rw [maxEpoch_zero_iff (List.cons_ne_nil _ _)]
    exact ⟨List.mem_cons_self, fun other hother =>
      ⟨value, UInt64.le_refl _, List.mem_singleton.mp hother⟩⟩

theorem mem_slots_seedDoc (key : PointerKey) :
    key ∈ (RegistryScan.gather fields).slots ↔ key ∈ projection.pointers := by
  rw [mem_slots_gather, mem_fields_flag hfields rfl FieldKind.noConfusion, slot_mem_seedDoc]

theorem tombstones_seedDoc : (RegistryScan.gather fields).tombstones = ∅ := by
  apply ExtTreeSet.ext_mem
  intro key
  rw [mem_tombstones_gather, mem_fields_flag hfields rfl FieldKind.noConfusion, mem_iff_getElem?]
  constructor
  · rintro ⟨values, hvalues⟩
    obtain ⟨epoch, -, ⟨hkind, -⟩ | ⟨hkind, -⟩⟩ := getElem?_seedDoc_fieldKey.mp hvalues <;>
      cases hkind
  · intro hmem
    exact absurd hmem ExtTreeSet.not_mem_empty

theorem size_slots_seedDoc :
    (RegistryScan.gather fields).slots.size = projection.pointers.size := by
  have hperm : (RegistryScan.gather fields).slots.toList.Perm projection.pointers.keys := by
    rw [List.perm_ext_iff_of_nodup (nodup_setToList _) ExtTreeMap.nodup_keys]
    intro key
    rw [ExtTreeSet.mem_toList, ExtTreeMap.mem_keys, mem_slots_seedDoc hfields]
  rw [← ExtTreeSet.length_toList, hperm.length_eq, ExtTreeMap.length_keys]

theorem not_refused_seedDoc (hsize : projection.pointers.size ≤ maxRegistryPointers) :
    ¬ (RegistryScan.gather fields).Refused 5 next := by
  rintro (⟨hcount, -⟩ | hlarge | ⟨key, hkey, habsent⟩)
  · exact hcount (headerCount_seedDoc hfields)
  · rw [size_slots_seedDoc hfields] at hlarge
    omega
  · have hmem := (mem_slots_seedDoc hfields key).mp (ExtTreeSet.mem_toList.mp hkey)
    rw [entries_seedDoc hfields, ExtTreeMap.contains_iff_mem.mpr hmem] at habsent
    cases habsent

/-- Every pointer has a slot, so that all of them are kept and nothing overflows. -/
theorem split_seedDoc (hsize : projection.pointers.size ≤ maxRegistryPointers) :
    (RegistryScan.gather fields).split = (projection.pointers, ∅) := by
  have hslots := size_slots_seedDoc hfields
  have hsplit := RegistryScan.split_isSplit (hslots.trans_le hsize)
  have hkept : ∀ (key : PointerKey) (value : UInt64), projection.pointers[key]? = some value →
      (RegistryScan.gather fields).split.1[key]? = some value := by
    intro key value hvalue
    have hmem : key ∈ projection.pointers := mem_iff_getElem?.mpr ⟨value, hvalue⟩
    refine hsplit.seeded key ((mem_slots_seedDoc hfields key).mpr hmem) value ?_ ?_
    · rwa [entries_seedDoc hfields]
    · rw [tombstones_seedDoc hfields]
      exact ExtTreeSet.not_mem_empty
  have hentry : ∀ (key : PointerKey) (value : UInt64),
      ((RegistryScan.gather fields).split.1[key]? = some value ∨
        (RegistryScan.gather fields).split.2[key]? = some value) →
      projection.pointers[key]? = some value := by
    intro key value hvalue
    have hentry := ((hsplit.live key value).mp hvalue).1
    rwa [entries_seedDoc hfields] at hentry
  apply Prod.ext
  · exact treeMap_ext fun key value =>
      ⟨fun hvalue => hentry key value (.inl hvalue), hkept key value⟩
  · refine treeMap_ext fun key value => ⟨fun hvalue => ?_, fun hempty => absurd hempty (by simp)⟩
    rcases hsplit.disjoint key with hnone | hnone
    · rw [hkept key value (hentry key value (.inr hvalue))] at hnone
      cases hnone
    · rw [hvalue] at hnone
      cases hnone

end Gathered

/-- A seed is read as the pointers it was built from. -/
theorem read_seedDoc
    (hdocument : registryDocument projection.document.serverId projection.bucket =
      .ok projection.document)
    (hnext : ¬ next > maxRegistryEpoch) (hsize : projection.pointers.size ≤ maxRegistryPointers)
    (hbucket : ∀ key : PointerKey, key ∈ projection.pointers → key.bucket = projection.bucket) :
    read projection.document projection.bucket next (projection.seedDoc next) =
      .ok ⟨projection.document, projection.bucket, next, projection.pointers, ∅, ∅⟩ := by
  obtain ⟨fields, hfields⟩ := classify_seedDoc next hbucket
  rw [read_eq_ok]
  refine ⟨hdocument, hnext, fields, hfields, not_refused_seedDoc hfields hsize, ?_⟩
  rw [split_seedDoc hfields hsize, tombstones_seedDoc hfields]

/-- What a checkpoint that is built has checked, and the document its seed is read as. -/
theorem checkpoint_eq_ok {library : ChangeLibrary} (hreplays : library.Replays)
    {closeHash : Hash32} {seed : CheckpointSeed}
    (h : projection.checkpoint library closeHash = .ok seed) :
    ∃ next, checkedAdd projection.epoch 1 = some next ∧ ¬ next > maxRegistryEpoch ∧
      projection.pointers.size ≤ maxRegistryPointers ∧
      (∀ key : PointerKey, key ∈ projection.pointers → key.bucket = projection.bucket) ∧
      library.apply seed.bytes = .ok (projection.seedDoc next) := by
  unfold checkpoint at h
  split at h
  · cases h
  rename_i next hnext
  obtain ⟨hbounds, h⟩ := guard_eq_ok.mp h
  obtain ⟨hscope, h⟩ := guard_eq_ok.mp h
  obtain ⟨hepoch, hsize⟩ := not_or.mp hbounds
  refine ⟨next, hnext, hepoch, Nat.not_lt.mp hsize, fun key hkey => ?_,
    CheckpointSeed.apply_build hreplays h⟩
  by_contra hne
  exact hscope (List.any_eq_true.mpr ⟨key, ExtTreeMap.mem_keys.mpr hkey, by simpa using hne⟩)

end Seed

/-! ## The shape of what is read -/

/-- What holds of every projection that was read. -/
structure WellShaped [Crypto] (projection : RegistryProjection) : Prop where
  document : registryDocument projection.document.serverId projection.bucket =
    .ok projection.document
  epoch : ¬ projection.epoch > maxRegistryEpoch
  disjoint : ∀ key : PointerKey, ¬ (key ∈ projection.pointers ∧ key ∈ projection.overflow)
  live : ∀ key : PointerKey, key ∈ projection.pointers ∨ key ∈ projection.overflow →
    key ∉ projection.tombstones
  full : projection.overflow ≠ ∅ → projection.pointers.size = maxRegistryPointers
  bounded : projection.pointers.size ≤ maxRegistryPointers

theorem read_wellShaped [Crypto]
    (h : read document bucket epoch doc = .ok projection) : projection.WellShaped := by
  obtain ⟨hdocument, hepoch, fields, hfields, haccepted, rfl⟩ := read_eq_ok.mp h
  obtain ⟨-, hslots, -⟩ := not_or.mp haccepted |>.imp_right not_or.mp
  have hsplit := RegistryScan.split_isSplit (Nat.not_lt.mp hslots)
  refine ⟨hdocument, hepoch, ?_, ?_, hsplit.full, hsplit.bounded⟩
  · rintro key ⟨hleft, hright⟩
    rw [ExtTreeMap.mem_iff_isSome_getElem?, Option.isSome_iff_ne_none] at hleft hright
    exact (hsplit.disjoint key).elim hleft hright
  · intro key hkey
    rw [mem_iff_getElem?, mem_iff_getElem?, ← exists_or] at hkey
    obtain ⟨value, hvalue⟩ := hkey
    exact ((hsplit.live key value).mp hvalue).2

/-- A key of the projection has a field in the document, and is of this bucket. -/
theorem field_of_read [Crypto]
    (h : read document bucket epoch doc = .ok projection) {key : PointerKey}
    (hkey : key ∈ projection.pointers ∨ key ∈ projection.overflow ∨ key ∈ projection.tombstones) :
    key.bucket = bucket ∧ ∃ kind, fieldKey kind key ∈ doc.values := by
  obtain ⟨-, -, fields, hfields, haccepted, rfl⟩ := read_eq_ok.mp h
  obtain ⟨-, hslots, -⟩ := not_or.mp haccepted |>.imp_right not_or.mp
  have hsplit := RegistryScan.split_isSplit (Nat.not_lt.mp hslots)
  obtain ⟨field, kind, hfield, hplace⟩ :
      ∃ field kind, field ∈ fields ∧ field.place = some (kind, key) := by
    rw [← or_assoc, mem_iff_getElem?, mem_iff_getElem?, ← exists_or] at hkey
    rcases hkey with ⟨value, hvalue⟩ | htombstone
    · have hentry := ((hsplit.live key value).mp hvalue).1
      exact ⟨.pointer key value, .put, (entries_gather hfields).mp hentry, rfl⟩
    · exact ⟨.tombstone key, .tombstone, mem_tombstones_gather.mp htombstone, rfl⟩
  obtain ⟨⟨text, values⟩, hentry, hclassify⟩ := exists_of_mem_mapM hfields hfield
  obtain ⟨rfl, hbucket, -⟩ := key_of_classify hclassify hplace
  refine ⟨hbucket, kind, ?_⟩
  exact mem_iff_getElem?.mpr ⟨values, ExtTreeMap.mem_toList_iff_getElem?_eq_some.mp hentry⟩

/-! ## Stability -/

/-- Pointers, overflow and tombstones of an accepted document are disjoint; the first two are its
live keys with their largest values, seeded slots are pointers, and nothing overflows before all
slots are used. A seed built from the projection is read as its pointers, each with a slot. -/
theorem read_stable [Crypto] {library : ChangeLibrary} (hreplays : library.Replays)
    {document : LogicalDocument} {bucket : UInt8} {epoch : UInt64} {doc : RootMap}
    {projection : RegistryProjection} (h : read document bucket epoch doc = .ok projection) :
    (∀ key : PointerKey, ¬ (key ∈ projection.pointers ∧ key ∈ projection.overflow) ∧
      ¬ (key ∈ projection.pointers ∧ key ∈ projection.tombstones) ∧
      ¬ (key ∈ projection.overflow ∧ key ∈ projection.tombstones)) ∧
    (∀ key : PointerKey, key ∈ projection.tombstones ↔ fieldKey .tombstone key ∈ doc.values) ∧
    (∀ (key : PointerKey) (value : UInt64),
      (projection.pointers[key]? = some value ∨ projection.overflow[key]? = some value) ↔
        doc.LargestPut key value ∧ fieldKey .tombstone key ∉ doc.values) ∧
    (projection.overflow ≠ ∅ → projection.pointers.size = maxRegistryPointers) ∧
    projection.pointers.size ≤ maxRegistryPointers ∧
    (∀ key : PointerKey, fieldKey .slot key ∈ doc.values → fieldKey .tombstone key ∉ doc.values →
      key ∈ projection.pointers) ∧
    (∀ (closeHash : Hash32) (seed : CheckpointSeed),
      projection.checkpoint library closeHash = .ok seed →
      ∃ (next : UInt64) (seedDoc : RootMap), next.toNat = epoch.toNat + 1 ∧
        library.apply seed.bytes = .ok seedDoc ∧
        read document bucket next seedDoc =
          .ok ⟨document, bucket, next, projection.pointers, ∅, ∅⟩ ∧
        ∀ key : PointerKey, fieldKey .slot key ∈ seedDoc.values ↔ key ∈ projection.pointers) := by
  obtain ⟨hdocument, hepoch, fields, hfields, haccepted, rfl⟩ := read_eq_ok.mp h
  obtain ⟨-, hslots, hseeded⟩ := not_or.mp haccepted |>.imp_right not_or.mp
  have hsplit := RegistryScan.split_isSplit (Nat.not_lt.mp hslots)
  have htombstone : ∀ key : PointerKey, key ∈ (RegistryScan.gather fields).tombstones ↔
      fieldKey .tombstone key ∈ doc.values := fun key => by
    rw [mem_tombstones_gather, mem_fields_flag hfields rfl FieldKind.noConfusion]
  have hlargest : ∀ (key : PointerKey) (value : UInt64),
      (RegistryScan.gather fields).entries[key]? = some value ↔ doc.LargestPut key value := by
    intro key value
    rw [entries_gather hfields, mem_fields_pointer hfields]
    refine exists_congr fun values => and_congr_right fun hvalues => ?_
    exact maxEpoch_zero_iff (doc.nonempty _ _ hvalues)
  have hshape := read_wellShaped h
  refine ⟨fun key => ⟨hshape.disjoint key, ?_, ?_⟩, htombstone, fun key value => ?_, hshape.full,
    hshape.bounded, fun key hslot htomb => ?_, fun closeHash seed hseed => ?_⟩
  · rintro ⟨hleft, htomb⟩
    exact hshape.live key (.inl hleft) htomb
  · rintro ⟨hright, htomb⟩
    exact hshape.live key (.inr hright) htomb
  · rw [hsplit.live, hlargest, htombstone]
  · have hmem : key ∈ (RegistryScan.gather fields).slots := by
      rw [mem_slots_gather, mem_fields_flag hfields rfl FieldKind.noConfusion]
      exact hslot
    have hentry : (RegistryScan.gather fields).entries.contains key = true := by
      by_contra habsent
      exact hseeded ⟨key, ExtTreeSet.mem_toList.mpr hmem, Bool.not_eq_true _ ▸ habsent⟩
    obtain ⟨value, hvalue⟩ := mem_iff_getElem?.mp (ExtTreeMap.contains_iff_mem.mp hentry)
    refine mem_iff_getElem?.mpr ⟨value, ?_⟩
    exact hsplit.seeded key hmem value hvalue (mt (htombstone key).mp htomb)
  · obtain ⟨next, hnext, hbound, hsize, hbucket, happly⟩ := checkpoint_eq_ok hreplays hseed
    refine ⟨next, _, (checkedAdd_eq_some.mp hnext).symm, happly, ?_, fun key => slot_mem_seedDoc⟩
    exact read_seedDoc hdocument hbound hsize hbucket

/-- A pointer to a post's replies. -/
def samplePointer : PointerKey := ⟨.postReplies, [7], rfl, List.cons_ne_nil _ _, by decide⟩

/-- The parameters with one hash for all byte strings. -/
@[reducible] def zeroCrypto : Crypto where
  sha256 _ := 0
  verifyWithPublicBytes _ _ _ := true
  deviceOfKey _ := 0

def sampleDocument : LogicalDocument := ⟨[7], .docRegistry, List.replicate 32 0⟩

theorem sampleDocument_bounded : sampleDocument.Bounded where
  managed := rfl
  serverId_ne := List.cons_ne_nil _ _
  serverId_le := by decide
  logicalKey_ne := List.cons_ne_nil _ _
  logicalKey_le := by decide

/-- A bucket of the first epoch with one pointer. -/
def sampleDoc : RootMap :=
  .written ((fieldKey .put samplePointer, .uint 5) :: header sampleDocument 0 0)

/-- A library that commits one list of puts, as a change of seven actions. -/
def sampleLibrary (puts : List (Bytes × ScalarValue)) : ChangeLibrary where
  commit _ others := if others = puts then some (BoundedChange.sevenActions, 0) else none
  parse bytes := some ⟨0, bytes, List.replicate 32 0, 1, 1, [], 0, none, [], false, []⟩
  apply _ := .ok (.written puts)

theorem sampleLibrary_replays (puts : List (Bytes × ScalarValue)) :
    (sampleLibrary puts).Replays := by
  intro actor others bytes hash h
  dsimp only [sampleLibrary] at h
  split at h
  · rename_i hsame
    rw [hsame]
    rfl
  · cases h

/-- The change of the sample library passes every check of a seed. -/
theorem validateChange_sample (puts : List (Bytes × ScalarValue)) :
    letI := zeroCrypto
    ∃ change, validateChange (sampleLibrary puts) ⟨sampleDocument, 1, 0, 0⟩
      BoundedChange.sevenActions = .ok change := by
  let : Crypto := zeroCrypto
  have hputs : validateChange (sampleLibrary puts) = validateChange (sampleLibrary []) := rfl
  have hok : (validateChange (sampleLibrary []) ⟨sampleDocument, 1, 0, 0⟩
      BoundedChange.sevenActions).toBool = true := by decide +kernel
  rw [hputs]
  cases hchange : validateChange (sampleLibrary []) ⟨sampleDocument, 1, 0, 0⟩
      BoundedChange.sevenActions with
  | ok change => exact ⟨change, rfl⟩
  | error error =>
    rw [hchange] at hok
    cases hok

theorem checkpoint_sample {pointers overflow : ExtTreeMap PointerKey UInt64}
    {tombstones : ExtTreeSet PointerKey} (hsize : pointers.size ≤ maxRegistryPointers) :
    letI := zeroCrypto
    let projection : RegistryProjection := ⟨sampleDocument, 0, 0, pointers, overflow, tombstones⟩
    ∃ seed, projection.checkpoint
      (sampleLibrary (insertAll ∅ (projection.seedFields 1)).toList) 0 = .ok seed := by
  let : Crypto := zeroCrypto
  intro projection
  have hbounds : ¬ ((1 : UInt64) > maxRegistryEpoch ∨
      projection.pointers.size > maxRegistryPointers) :=
    not_or.mpr ⟨by decide, Nat.not_lt.mpr hsize⟩
  have hscope :
      ¬ (projection.pointers.keys.any fun key => key.bucket ≠ projection.bucket) = true := by
    intro hany
    obtain ⟨key, -, hkey⟩ := List.any_eq_true.mp hany
    have hzero : key.bucket = 0 := by
      show (fixedBytes (0 : Hash32)).headD 0 = 0
      decide +kernel
    exact of_decide_eq_true hkey hzero
  obtain ⟨change, hchange⟩ := validateChange_sample (insertAll ∅ (projection.seedFields 1)).toList
  refine ⟨⟨⟨sampleDocument, 1, 0, 0⟩, BoundedChange.sevenActions⟩, ?_⟩
  unfold checkpoint
  have hnext : checkedAdd projection.epoch 1 = some 1 := rfl
  rw [hnext]
  dsimp only
  rw [if_neg hbounds, if_neg hscope]
  exact CheckpointSeed.build_of_valid sampleDocument_bounded (by decide) (if_pos rfl)
    ⟨change, hchange⟩ (rejectMarkers_seedDoc projection 1)

theorem read_stable_sample :
    letI := zeroCrypto
    ∃ (projection : RegistryProjection) (library : ChangeLibrary) (seed : CheckpointSeed)
      (seedDoc : RootMap) (next : UInt64),
      read sampleDocument 0 0 sampleDoc = .ok projection ∧
      projection.checkpoint library 0 = .ok seed ∧ library.apply seed.bytes = .ok seedDoc ∧
      read sampleDocument 0 next seedDoc =
        .ok ⟨sampleDocument, 0, next, projection.pointers, ∅, ∅⟩ := by
  let : Crypto := zeroCrypto
  have hok : (read sampleDocument 0 0 sampleDoc).toBool = true := by decide +kernel
  generalize hread : read sampleDocument 0 0 sampleDoc = outcome at hok
  cases outcome with
  | error error => cases hok
  | ok projection =>
    obtain ⟨-, -, fields, -, -, hsame⟩ := read_eq_ok.mp hread
    have hsize : projection.pointers.size ≤ maxRegistryPointers :=
      (read_stable (sampleLibrary_replays []) hread).2.2.2.2.1
    subst hsame
    obtain ⟨seed, hseed⟩ := checkpoint_sample hsize
    obtain ⟨next, seedDoc, -, happly, hagain, -⟩ :=
      (read_stable (sampleLibrary_replays _) hread).2.2.2.2.2.2 0 seed hseed
    exact ⟨_, _, seed, seedDoc, next, rfl, hseed, happly, hagain⟩

end RegistryProjection
end Mewtual
