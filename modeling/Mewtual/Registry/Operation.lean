import Mewtual.Doc.AncestryIndex
import Mewtual.Epoch.IntentLedger
import Mewtual.Registry.Projection

/-!
# Operations of a registry bucket

The closed set of registry operations with their canonical JSON bodies, and the check that a change
of the document writes what its operation declares and nothing else. The JSON library and the
document library are parameters: of each the calls that are made are given, and what a result
assumes of them is a property with a name.

Main results:

- Theorem {lit}`RegistryOp.length_encode_le`: a body is longer than the spelling of its key.
- Theorem {lit}`validateRegistryChange_writes`: an accepted change writes only allowed keys.
-/

namespace Mewtual

open Std

/-! ## The JSON library -/

/-- A parsed JSON value. Every value that no registry body has is one case. -/
inductive Json where
  | unsigned (value : UInt64)
  | text (value : Bytes)
  | object (fields : List (Bytes × Json))
  | other

/-- The value of a field of an object. -/
def Json.field? (name : Bytes) : Json → Option Json
  | .object fields => fields.lookup name
  | _ => none

/-- The number that a value is. -/
def Json.unsigned? : Json → Option UInt64
  | .unsigned value => some value
  | _ => none

/-- The text that a value is. -/
def Json.text? : Json → Option Bytes
  | .text value => some value
  | _ => none

/-- The calls of the JSON library: parsing a value, and writing a map of fields. -/
structure JsonLibrary where
  fromSlice : Bytes → Option Json
  toVec : List (Bytes × Json) → Option Bytes

/-- A map is written with each of its texts and the name of the text, both in quotes, a colon
between them and braces around everything. -/
def JsonLibrary.Quotes (json : JsonLibrary) : Prop :=
  ∀ (fields : List (Bytes × Json)) (bytes : Bytes), (fields.map Prod.fst).Nodup →
    json.toVec fields = some bytes → ∀ name value, (name, .text value) ∈ fields →
      name.length + value.length + 7 ≤ bytes.length

/-! ## Operations -/

/-- Put a pointer to an epoch, or reclaim it. -/
inductive RegistryOp where
  | put (key : PointerKey) (epoch : UInt64)
  | tombstone (key : PointerKey)
deriving DecidableEq

namespace RegistryOp

/-- The pointer that an operation is about. -/
def key : RegistryOp → PointerKey
  | .put key _ => key
  | .tombstone key => key

/-- The fields of the body, in the order of their names. -/
def fields : RegistryOp → List (Bytes × Json)
  | .put key epoch =>
    [(asciiBytes "epoch", .unsigned epoch), (asciiBytes "key", .text (hex key.key)),
      (asciiBytes "t", .text (asciiBytes "put_pointer")),
      (asciiBytes "type", .unsigned key.docType.tag.toUInt64)]
  | .tombstone key =>
    [(asciiBytes "key", .text (hex key.key)),
      (asciiBytes "t", .text (asciiBytes "tombstone_pointer")),
      (asciiBytes "type", .unsigned key.docType.tag.toUInt64)]

/-- The canonical body. A pointer key is valid by itself, so that it is not checked again. -/
def encode (json : JsonLibrary) (op : RegistryOp) : Except ReplError Bytes :=
  match json.toVec op.fields with
  | none => .error .malformed
  | some bytes => .ok bytes

/-- The type a body names. -/
def docTypeOf (body : Json) : Option DocType :=
  match (body.field? (asciiBytes "type")).bind Json.unsigned? with
  | none => none
  | some tag => if tag.toNat < 2 ^ 16 then DocType.fromTag (UInt16.ofNat tag.toNat) else none

/-- The operation that a body names, for its pointer. -/
def ofBody (body : Json) (key : PointerKey) : Except ReplError RegistryOp :=
  match (body.field? (asciiBytes "t")).bind Json.text? with
  | none => .error .malformed
  | some name =>
    if name = asciiBytes "put_pointer" then
      match (body.field? (asciiBytes "epoch")).bind Json.unsigned? with
      | none => .error .malformed
      | some epoch => .ok (.put key epoch)
    else if name = asciiBytes "tombstone_pointer" then .ok (.tombstone key)
    else .error .malformed

/-- Bounded decoding of the exact canonical body. -/
def decode (json : JsonLibrary) (bytes : Bytes) : Except ReplError RegistryOp :=
  if bytes.length > 1024 then .error .epochBound
  else
    match json.fromSlice bytes with
    | none => .error .malformed
    | some body =>
      match docTypeOf body, (body.field? (asciiBytes "key")).bind Json.text? with
      | some docType, some text => do
        let bytesOfKey ← PointerKey.unhex text
        let key ← PointerKey.new docType bytesOfKey
        let result ← ofBody body key
        let again ← result.encode json
        if again ≠ bytes then .error .malformed else .ok result
      | _, _ => .error .malformed

/-- The field of the document an operation writes. -/
def entry : RegistryOp → Bytes × ScalarValue
  | .put key epoch => (fieldKey .put key, .uint epoch)
  | .tombstone key => (fieldKey .tombstone key, .boolean true)

/-- Whatever the parser is, the accepted bytes are the body of the operation. -/
theorem encode_of_decode {json : JsonLibrary} {bytes : Bytes} {op : RegistryOp}
    (h : decode json bytes = .ok op) : op.encode json = .ok bytes := by
  obtain ⟨-, h⟩ := guard_eq_ok.mp h
  split at h
  · cases h
  split at h
  · obtain ⟨bytesOfKey, -, h⟩ := bind_eq_ok.mp h
    obtain ⟨key, -, h⟩ := bind_eq_ok.mp h
    obtain ⟨result, -, h⟩ := bind_eq_ok.mp h
    obtain ⟨again, hagain, h⟩ := bind_eq_ok.mp h
    obtain ⟨hsame, h⟩ := guard_eq_ok.mp h
    cases h
    rw [← not_not.mp hsame]
    exact hagain
  · cases h

/-- The fields of a body have different names. -/
theorem nodup_fields (op : RegistryOp) : (op.fields.map Prod.fst).Nodup := by
  cases op <;> exact of_decide_eq_true rfl

/-- A body is longer than the spelling of its key. -/
theorem length_encode_le {json : JsonLibrary} (hjson : json.Quotes) {op : RegistryOp}
    {bytes : Bytes} (h : op.encode json = .ok bytes) :
    2 * op.key.key.length + 10 ≤ bytes.length := by
  have hfield : (asciiBytes "key", Json.text (hex op.key.key)) ∈ op.fields := by
    cases op with
    | put key epoch => exact List.mem_cons_of_mem _ List.mem_cons_self
    | tombstone key => exact List.mem_cons_self
  have hname : (asciiBytes "key").length = 3 := rfl
  unfold encode at h
  split at h
  · cases h
  · rename_i written hwritten
    cases h
    have hlength := hjson op.fields bytes op.nodup_fields hwritten _ _ hfield
    rw [hname, length_hex] at hlength
    omega

end RegistryOp

/-- An operation of this bucket. -/
def validateDomain [Crypto] (json : JsonLibrary) (document : LogicalDocument)
    (bucket : UInt8) (domain : DomainOp) : Except ReplError RegistryOp :=
  if domain.docType ≠ .docRegistry ∨ domain.logicalKey ≠ document.logicalKey then .error .epochScope
  else do
    let op ← RegistryOp.decode json domain.body
    if op.key.bucket ≠ bucket then .error .epochScope else .ok op

variable {document : LogicalDocument}

theorem validateDomain_eq_ok [Crypto] {json : JsonLibrary} {bucket : UInt8}
    {domain : DomainOp} {op : RegistryOp}
    (h : validateDomain json document bucket domain = .ok op) :
    domain.docType = .docRegistry ∧ domain.logicalKey = document.logicalKey ∧
      op.encode json = .ok domain.body ∧ op.key.bucket = bucket := by
  obtain ⟨hscope, h⟩ := guard_eq_ok.mp h
  obtain ⟨hdocType, hkey⟩ := not_or.mp hscope
  obtain ⟨found, hfound, h⟩ := bind_eq_ok.mp h
  obtain ⟨hbucket, h⟩ := guard_eq_ok.mp h
  cases h
  exact ⟨not_not.mp hdocType, not_not.mp hkey, RegistryOp.encode_of_decode hfound,
    not_not.mp hbucket⟩

/-! ## The document library -/

/-- The name the document library gives an operation. -/
structure OpName where
  counter : Nat
  actor : Bytes
deriving DecidableEq

/-- What an operation of a change does. -/
inductive OpType where
  | put (value : ScalarValue)
  | make
  | delete
  | other
deriving DecidableEq

/-- One operation of a decoded change. -/
structure ChangeOp where
  /-- Whether the object is the root. -/
  root : Bool
  /-- The map key, if the object is addressed by one. -/
  key : Option Bytes
  action : OpType
  insert : Bool
  pred : List OpName
deriving DecidableEq

/-- What is read of a change. -/
structure Change where
  actorId : Bytes
  deps : List ChangeHash
  operations : List ChangeOp
deriving DecidableEq

/-- The device an actor is, if it has the length of one. -/
def Change.author (change : Change) : Option DeviceId :=
  if change.actorId.length = 32 then some (BitVec.ofNat (8 * 32) (beNat change.actorId)) else none

/-- The calls of the document library. A key of the root is read now, or at the heads that are
given. -/
structure DocumentLibrary (Doc : Type) where
  /-- The changes of a document. -/
  changes : Doc → List Change
  hasChange : Doc → ChangeHash → Bool
  rootMap : Doc → RootMap
  /-- The concurrent values of a key, with the names of their operations. -/
  getAll : Doc → Option (List ChangeHash) → Bytes → Except String (List (Value × OpName))
  /-- The value that is shown of them. -/
  get : Doc → Option (List ChangeHash) → Bytes → Except String (Option Value)

/-- Every key of the root map is one that an operation of some change of the document wrote. -/
def DocumentLibrary.Writes {Doc : Type} (library : DocumentLibrary Doc) : Prop :=
  ∀ (doc : Doc) (key : Bytes), key ∈ (library.rootMap doc).values →
    ∃ change ∈ library.changes doc, ∃ op ∈ change.operations, op.root = true ∧ op.key = some key

/-! ## Changes -/

/-- The marker of an operation. -/
def opMarker (id : Hash32) : Bytes := markerStart ++ hex (fixedBytes id)

/-- The keys a change may write, with their values. -/
def allowedPuts [Crypto] (document : LogicalDocument) (bucket : UInt8) (epoch : UInt64)
    (op : RegistryOp) (id : Hash32) : List (Bytes × ScalarValue) :=
  (opMarker id, .uint 1) :: op.entry :: header document bucket epoch

section Changes

variable {Doc : Type}

/-- One operation of a registry change: an allowed put, once, of a key whose values it may replace.
Nothing is read for an operation that replaces nothing. -/
def checkRegistryPut (library : DocumentLibrary Doc) (allowed : List (Bytes × ScalarValue))
    (before : Doc) (heads : Option (List ChangeHash)) (seen : List Bytes) (op : ChangeOp) :
    Except ReplError (List Bytes) :=
  match op.root, op.key, op.action with
  | true, some key, .put value =>
    if op.insert = true ∨ key ∈ seen ∨ allowed.lookup key ≠ some value then .error .malformed
    else if op.pred = [] then .ok (key :: seen)
    else do
      let prior ← (library.getAll before heads key).mapError .automerge
      if ∃ name ∈ op.pred, name ∉ prior.map Prod.snd then .error .malformed
      else .ok (key :: seen)
  | _, _, _ => .error .malformed

/-- A change writes what its operation declares, in the view of its author. The current view may
stand for it where the caller has compared the frontiers. -/
def validateRegistryChange [Crypto] (json : JsonLibrary) (library : DocumentLibrary Doc)
    (document : LogicalDocument) (bucket : UInt8) (epoch : UInt64) (domain : DomainOp)
    (change : Change) (before : Doc) (currentView : Bool) : Except ReplError Unit := do
  let operation ← validateDomain json document bucket domain
  match change.author with
  | none => .error .epochAuthority
  | some author =>
    let marker := opMarker (domain.id author)
    let allowed := allowedPuts document bucket epoch operation (domain.id author)
    let heads := if currentView then none else some change.deps
    if change.operations.length > allowed.length then .error .malformed
    else if currentView = false ∧ ∃ hash ∈ change.deps, library.hasChange before hash = false then
      .error .epochScope
    else do
      let seen ← change.operations.foldlM (checkRegistryPut library allowed before heads) []
      let prior ← (library.get before heads operation.entry.1).mapError .automerge
      let alreadyApplied := prior = some (.scalar operation.entry.2)
      if marker ∉ seen ∨ (operation.entry.1 ∉ seen ∧ ¬ alreadyApplied) then .error .malformed
      else .ok ()

variable {library : DocumentLibrary Doc} {before : Doc} {heads : Option (List ChangeHash)}

/-- What an accepted put is. -/
theorem checkRegistryPut_eq_ok {allowed : List (Bytes × ScalarValue)} {seen next : List Bytes}
    {op : ChangeOp} (h : checkRegistryPut library allowed before heads seen op = .ok next) :
    ∃ key value, op.key = some key ∧ op.action = .put value ∧ allowed.lookup key = some value := by
  unfold checkRegistryPut at h
  split at h
  · rename_i key value hroot hkey haction
    obtain ⟨hput, -⟩ := guard_eq_ok.mp h
    obtain ⟨-, -, hallowed⟩ := not_or.mp hput |>.imp_right not_or.mp
    exact ⟨key, value, hkey, haction, not_not.mp hallowed⟩
  · cases h

theorem foldlM_checkRegistryPut {allowed : List (Bytes × ScalarValue)}
    {operations : List ChangeOp} {seen last : List Bytes}
    (h : operations.foldlM (checkRegistryPut library allowed before heads) seen = .ok last)
    {op : ChangeOp} (hop : op ∈ operations) :
    ∃ key value, op.key = some key ∧ op.action = .put value ∧ allowed.lookup key = some value := by
  induction operations generalizing seen with
  | nil => cases hop
  | cons first operations ih =>
    rw [List.foldlM_cons] at h
    obtain ⟨next, hnext, h⟩ := bind_eq_ok.mp h
    rcases List.mem_cons.mp hop with rfl | hop
    · exact checkRegistryPut_eq_ok hnext
    · exact ih h hop

/-- An accepted change writes only allowed keys. -/
theorem validateRegistryChange_writes [Crypto] {json : JsonLibrary} {bucket : UInt8}
    {epoch : UInt64} {domain : DomainOp} {change : Change} {currentView : Bool}
    (h : validateRegistryChange json library document bucket epoch domain change before
      currentView = .ok ()) :
    ∃ operation author, validateDomain json document bucket domain = .ok operation ∧
      change.author = some author ∧
      ∀ op ∈ change.operations, ∀ key, op.key = some key →
        ∃ scalar, (allowedPuts document bucket epoch operation (domain.id author)).lookup key =
          some scalar := by
  obtain ⟨operation, hoperation, h⟩ := bind_eq_ok.mp h
  split at h
  · cases h
  rename_i author hauthor
  obtain ⟨-, h⟩ := guard_eq_ok.mp h
  obtain ⟨-, h⟩ := guard_eq_ok.mp h
  obtain ⟨seen, hseen, -⟩ := bind_eq_ok.mp h
  refine ⟨operation, author, hoperation, hauthor, fun op hop key hkey => ?_⟩
  obtain ⟨found, scalar, hfound, -, hallowed⟩ := foldlM_checkRegistryPut hseen hop
  rw [hkey] at hfound
  cases hfound
  exact ⟨scalar, hallowed⟩

end Changes

/-- The pointer fields among the allowed keys are the one the operation writes. -/
theorem fieldKey_of_allowed [Crypto] {bucket : UInt8} {epoch : UInt64} {op : RegistryOp}
    {id : Hash32} {kind : FieldKind} {key : PointerKey} {value : ScalarValue}
    (h : (allowedPuts document bucket epoch op id).lookup (fieldKey kind key) = some value) :
    key = op.key := by
  have hmarker : (fieldKey kind key == opMarker id) = false := by
    cases kind <;> rfl
  unfold allowedPuts at h
  rw [List.lookup_cons, hmarker] at h
  dsimp only at h
  rw [List.lookup_cons] at h
  split at h
  · rename_i hentry
    have hentry := beq_iff_eq.mp hentry
    cases op with
    | put | tombstone => exact (fieldKey_injective hentry).2
  · rw [lookup_header_fieldKey] at h
    cases h

end Mewtual
