import Mewtual.Epoch.GateCodec
import Mewtual.Lib.Run

/-!
# Pending local intents

A local edit is written to the intent ledger of its document before it is attempted, and leaves it
when a receipted closure, a recovery record or a disposal has taken it over. The ledger is bounded
by a number of entries and by the encoded bytes of their operations; both bounds together keep the
whole ledger within the bound on its own encoding.

Main results:

- Theorem {lit}`DomainOp.decode_domain_iff`: which operations the decoder accepts.
- Theorem {lit}`IntentLedger.Valid.prepare`: one preparation keeps the accounts, and a refused one
  the ledger.
- Theorem {lit}`IntentLedger.Valid.removeIds`: one removal keeps the accounts.
- Theorem {lit}`IntentLedger.Valid.decode_encode`: a ledger is read back.
- Theorem {lit}`IntentLedger.run_accounted`: all of it along every run.
-/

namespace Mewtual

open Std

/-! ## Domain operations -/

/-- Canonical operation bytes with the nonce that makes their identity. -/
structure DomainOp where
  nonce : Fixed 16
  docType : DocType
  logicalKey : Bytes
  body : Bytes
deriving DecidableEq

namespace DomainOp

def bytes (op : DomainOp) : Bytes :=
  putU8 1 ++ framed (fixedBytes op.nonce) ++ putU16 op.docType.tag ++ framed op.logicalKey ++
    framed op.body

/-- The bytes of an operation within their cap. -/
def encode (op : DomainOp) : Except ReplError Bytes :=
  if !isEpochManagedDocType op.docType || op.logicalKey.isEmpty ||
      decide (op.logicalKey.length > maxLogicalKeyBytes) then
    .error .epochBound
  else do
    let logicalKey ← (putBytes op.logicalKey).mapError fun _ => .epochBound
    let body ← (putBytes op.body).mapError fun _ => .epochBound
    let bytes := putU8 1 ++ framed (fixedBytes op.nonce) ++ putU16 op.docType.tag ++ logicalKey ++
      body
    if bytes.length > maxDomainOpBytes then .error .epochBound else .ok bytes

/-- The fields of an operation. -/
def get : Parser DomainOp := do
  let version ← Decoder.orMalformed getU8
  if version ≠ 1 then throw .malformed
  let nonce ← getFixed 16
  let tag ← Decoder.orMalformed getU16
  let docType ← Reader.check ((DocType.fromTag tag).elim (.error .malformed) .ok)
  let logicalKey ← Decoder.orMalformed getBytes
  let body ← Decoder.orMalformed getBytes
  pure ⟨nonce, docType, logicalKey, body⟩

/-- Decode an operation and use up the input. -/
def decode (bytes : Bytes) : Except ReplError DomainOp :=
  if bytes.length > maxDomainOpBytes then .error .epochBound
  else do
    let op ← Reader.whole .malformed get bytes
    let again ← op.encode
    if again ≠ bytes then .error .malformed else .ok op

/-- The identity of an operation of a verified author. -/
def id [Crypto] (op : DomainOp) (author : DeviceId) : Hash32 :=
  hashParts "catcoms-domain-op:v1" [op.logicalKey, fixedBytes author, fixedBytes op.nonce]

/-- What the encoder checks. -/
structure Encodable (op : DomainOp) : Prop where
  managed : isEpochManagedDocType op.docType = true
  key_ne : op.logicalKey ≠ []
  key_le : op.logicalKey.length ≤ maxLogicalKeyBytes
  length_le : op.bytes.length ≤ maxDomainOpBytes

@[simp] theorem length_bytes (op : DomainOp) :
    op.bytes.length = 31 + op.logicalKey.length + op.body.length := by
  simp only [bytes, List.length_append, length_putU8, length_framed, length_fixedBytes,
    length_putU16]
  omega

variable {op : DomainOp}

theorem Encodable.lengths (h : op.Encodable) :
    op.logicalKey.length < 2 ^ 32 ∧ op.body.length < 2 ^ 32 := by
  have hlength := h.length_le
  rw [length_bytes] at hlength
  unfold maxDomainOpBytes at hlength
  omega

theorem encode_eq_ok {found : Bytes} : op.encode = .ok found ↔ op.Encodable ∧ found = op.bytes := by
  have hput (field out : Bytes) :
      (putBytes field).mapError (fun _ => ReplError.epochBound) = .ok out ↔
        field.length < 2 ^ 32 ∧ framed field = out := by
    unfold putBytes
    split <;> simp_all [Except.mapError]
  rw [encode, guard_eq_ok]
  simp only [Bool.or_eq_true, Bool.not_eq_true', List.isEmpty_iff, decide_eq_true_eq, not_or,
    Bool.not_eq_false, Nat.not_lt, bind_eq_ok, hput, guard_eq_ok]
  constructor
  · rintro ⟨⟨⟨hmanaged, hne⟩, hle⟩, _, ⟨-, rfl⟩, _, ⟨-, rfl⟩, hlength, h⟩
    exact ⟨⟨hmanaged, hne, hle, hlength⟩, (Except.ok.inj h).symm⟩
  · rintro ⟨h, rfl⟩
    exact ⟨⟨⟨h.managed, h.key_ne⟩, h.key_le⟩, _, ⟨h.lengths.1, rfl⟩, _, ⟨h.lengths.2, rfl⟩,
      h.length_le, rfl⟩

theorem get_bytes (h : op.Encodable) : Reads get op.bytes op := by
  simp [-accepts_getBytes, reads_iff, get, bytes, (getFixed_framed (by decide) op.nonce).accepts,
    DocType.fromTag_tag, (getBytes_framed h.lengths.1).accepts,
    (getBytes_framed h.lengths.2).accepts]

theorem decode_encode (h : op.Encodable) : decode op.bytes = .ok op := by
  unfold decode
  rw [if_neg (Nat.not_lt.mpr h.length_le), (get_bytes h).whole, ok_bind,
    encode_eq_ok.mpr ⟨h, rfl⟩, ok_bind, if_neg (not_not.mpr rfl)]

/-- A decoded operation is one that encodes to the same bytes. -/
theorem encode_of_decode {bytes : Bytes} (h : decode bytes = .ok op) : op.encode = .ok bytes := by
  obtain ⟨-, h⟩ := guard_eq_ok.mp h
  obtain ⟨found, -, h⟩ := bind_eq_ok.mp h
  obtain ⟨again, hagain, h⟩ := bind_eq_ok.mp h
  obtain ⟨hsame, h⟩ := guard_eq_ok.mp h
  cases h
  rw [hagain, not_not.mp hsame]

/-- The decoder accepts exactly the bytes of the operations the encoder takes. -/
theorem decode_domain_iff {bytes : Bytes} :
    decode bytes = .ok op ↔ op.Encodable ∧ bytes = op.bytes := by
  constructor
  · intro h
    exact encode_eq_ok.mp (encode_of_decode h)
  · rintro ⟨h, rfl⟩
    exact decode_encode h

/-- The length the ledger counts. -/
def encodedLen (op : DomainOp) : Nat :=
  match op.encode with
  | .ok bytes => bytes.length
  | .error _ => 0

theorem Encodable.encodedLen_eq (h : op.Encodable) : op.encodedLen = op.bytes.length := by
  unfold encodedLen
  rw [encode_eq_ok.mpr ⟨h, rfl⟩]

end DomainOp

/-! ## The ledger -/

def maxIntentsPerDocument : Nat := 10000

def maxIntentBytesPerDocument : Nat := 4 * 1024 * 1024

def maxIntentLedgerBytes : Nat := 5 * 1024 * 1024

/-- An operation of a local author that no receipt covers yet. -/
structure LocalIntent where
  author : DeviceId
  operation : DomainOp
deriving DecidableEq

/-- The pending intents of one document, with the running count of their operation bytes. -/
structure IntentLedger where
  document : LogicalDocument
  intents : ExtTreeMap Hash32 LocalIntent
  encodedOperationBytes : Nat

namespace IntentLedger

/-- An empty ledger. -/
def new (document : LogicalDocument) : IntentLedger := ⟨document, ∅, 0⟩

/-- The pending intents in the order of their ids. -/
def pending (ledger : IntentLedger) : List LocalIntent := treeValues ledger.intents

/-- Record an intent before its operation is made; one that is pending is returned as it is. -/
def prepare [Crypto] (author : DeviceId) (operation : DomainOp) (ledger : IntentLedger) :
    Except ReplError Hash32 × IntentLedger :=
  if operation.docType ≠ ledger.document.docType ∨
      operation.logicalKey ≠ ledger.document.logicalKey then
    (.error .epochScope, ledger)
  else
    match operation.encode with
    | .error error => (.error error, ledger)
    | .ok bytes =>
      let id := operation.id author
      match ledger.intents[id]? with
      | some existing =>
        if existing.author = author ∧ existing.operation = operation then (.ok id, ledger)
        else (.error .intentConflict, ledger)
      | none =>
        if ledger.intents.size = maxIntentsPerDocument ∨
            ledger.encodedOperationBytes + bytes.length > maxIntentBytesPerDocument then
          (.error .epochBound, ledger)
        else
          (.ok id, { ledger with
            intents := ledger.intents.insert id ⟨author, operation⟩
            encodedOperationBytes := ledger.encodedOperationBytes + bytes.length })

/-- Drop the named entries, taking the length of each off the running count. -/
def removeIds (ids : List Hash32) (ledger : IntentLedger) : Nat × IntentLedger :=
  let kept := ledger.intents.filter fun id _ => !ids.contains id
  let dropped := ledger.intents.filter fun id _ => ids.contains id
  (ledger.intents.size - kept.size,
    { ledger with
      intents := kept
      encodedOperationBytes := (treeValues dropped).foldl
        (fun count intent => count - intent.operation.encodedLen) ledger.encodedOperationBytes })

/-- Drop intents that a receipt covers. -/
def removeReceipted (ids : List Hash32) (ledger : IntentLedger) : Nat × IntentLedger :=
  ledger.removeIds ids

/-- Drop intents that were handed to manual recovery. -/
def removeToManualRecovery (ids : List Hash32) (ledger : IntentLedger) : Nat × IntentLedger :=
  ledger.removeIds ids

/-- Drop intents that were disposed of. -/
def removeDisposed (ids : List Hash32) (ledger : IntentLedger) : Nat × IntentLedger :=
  ledger.removeIds ids

/-- One entry of the encoding. -/
def encodeIntent (intent : LocalIntent) : Except ReplError Bytes := do
  let operation ← intent.operation.encode
  let operation ← (putBytes operation).mapError fun _ => .epochBound
  pure (framed (fixedBytes intent.author) ++ operation)

/-- The bytes of a ledger within their cap. -/
def encode (ledger : IntentLedger) : Except ReplError Bytes := do
  let serverId ← (putBytes ledger.document.serverId).mapError fun _ => .epochBound
  let logicalKey ← (putBytes ledger.document.logicalKey).mapError fun _ => .epochBound
  let count ← tryU32 ledger.intents.size
  let intents ← ledger.pending.mapM encodeIntent
  let bytes := putU8 1 ++ serverId ++ putU16 ledger.document.docType.tag ++ logicalKey ++
    putU32 count ++ intents.flatten
  if bytes.length > maxIntentLedgerBytes then .error .epochBound else .ok bytes

/-- Read the entries in the order of their ids and prepare each of them again. -/
def restoreIntents [Crypto] : Nat → Option Hash32 → IntentLedger → Parser IntentLedger
  | 0, _, ledger => pure ledger
  | count + 1, prior, ledger => do
    let author ← getFixed 32
    let field ← Decoder.orMalformed getBytes
    let operation ← Reader.check (DomainOp.decode field)
    if prior.any fun prior => prior ≥ operation.id author then throw .malformed
    let id ← Reader.check (ledger.prepare author operation).1
    if id ≠ operation.id author then throw .malformed
    restoreIntents count (some (operation.id author)) (ledger.prepare author operation).2

/-- Read a ledger and count its bytes. -/
def get [Crypto] : Parser IntentLedger := do
  let version ← Decoder.orMalformed getU8
  if version ≠ 1 then throw .malformed
  let document ← LogicalDocument.get
  let count ← Decoder.orMalformed getU32
  if count.toNat > maxIntentsPerDocument then throw .epochBound
  restoreIntents count.toNat none (new document)

/-- Decode a ledger and use up the input. -/
def decode [Crypto] (bytes : Bytes) : Except ReplError IntentLedger :=
  if bytes.length > maxIntentLedgerBytes then .error .epochBound
  else do
    let ledger ← Reader.whole .malformed get bytes
    let again ← ledger.encode
    if again ≠ bytes then .error .malformed else .ok ledger

/-! ## Accounts -/

/-- A ledger whose keys, counts and bounds are right. -/
structure Valid [Crypto] (ledger : IntentLedger) : Prop where
  bounded : ledger.document.Bounded
  keyed : ∀ (id : Hash32) (intent : LocalIntent), ledger.intents[id]? = some intent →
    intent.operation.id intent.author = id
  inScope : ∀ intent ∈ ledger.pending, intent.operation.docType = ledger.document.docType ∧
    intent.operation.logicalKey = ledger.document.logicalKey
  encodable : ∀ intent ∈ ledger.pending, intent.operation.Encodable
  counted : ledger.encodedOperationBytes =
    (ledger.pending.map fun intent => intent.operation.encodedLen).sum
  count_le : ledger.intents.size ≤ maxIntentsPerDocument
  bytes_le : ledger.encodedOperationBytes ≤ maxIntentBytesPerDocument

variable [Crypto] {ledger : IntentLedger}

theorem valid_new {document : LogicalDocument} (h : document.Bounded) : (new document).Valid where
  bounded := h
  keyed id intent hintent := by simp [new] at hintent
  inScope intent hmem := by simp [new, pending] at hmem
  encodable intent hmem := by simp [new, pending] at hmem
  counted := rfl
  count_le := Nat.zero_le _
  bytes_le := Nat.zero_le _

/-- What a preparation can do: nothing, with an error; nothing, for an exact retry; or one new
entry. -/
inductive Prepared (author : DeviceId) (operation : DomainOp) (ledger : IntentLedger) :
    Except ReplError Hash32 × IntentLedger → Prop
  | refused (error : ReplError) : Prepared author operation ledger (.error error, ledger)
  | retried (hheld : ledger.intents[operation.id author]? = some ⟨author, operation⟩) :
    Prepared author operation ledger (.ok (operation.id author), ledger)
  | added (hfresh : ledger.intents[operation.id author]? = none)
    (htype : operation.docType = ledger.document.docType)
    (hkey : operation.logicalKey = ledger.document.logicalKey) (hencodable : operation.Encodable)
    (hcount : ledger.intents.size ≠ maxIntentsPerDocument)
    (hbytes : ledger.encodedOperationBytes + operation.bytes.length ≤
      maxIntentBytesPerDocument) :
    Prepared author operation ledger (.ok (operation.id author),
      { ledger with
        intents := ledger.intents.insert (operation.id author) ⟨author, operation⟩
        encodedOperationBytes := ledger.encodedOperationBytes + operation.bytes.length })

theorem prepare_spec (author : DeviceId) (operation : DomainOp) (ledger : IntentLedger) :
    Prepared author operation ledger (ledger.prepare author operation) := by
  unfold prepare
  split
  · exact .refused _
  rename_i hscope
  rw [not_or, not_not, not_not] at hscope
  split
  · exact .refused _
  rename_i bytes hencode
  obtain ⟨hencodable, rfl⟩ := DomainOp.encode_eq_ok.mp hencode
  dsimp only
  split
  · rename_i existing hheld
    split
    · rename_i hsame
      obtain ⟨rfl, rfl⟩ := hsame
      exact .retried hheld
    · exact .refused _
  · rename_i hfresh
    split
    · exact .refused _
    · rename_i hroom
      rw [not_or, Nat.not_lt] at hroom
      exact .added hfresh hscope.1 hscope.2 hencodable hroom.1 hroom.2

/-- A preparation keeps the accounts. -/
theorem Valid.prepare (h : ledger.Valid) (author : DeviceId) (operation : DomainOp) :
    (ledger.prepare author operation).2.Valid := by
  have hspec := prepare_spec author operation ledger
  generalize ledger.prepare author operation = outcome at hspec
  cases hspec with
  | refused | retried => exact h
  | added hfresh htype hkey hencodable hcount hbytes =>
    have hperm := treeValues_insert_perm (v := LocalIntent.mk author operation) hfresh
    have hmem : ∀ intent ∈ treeValues (ledger.intents.insert (operation.id author)
        ⟨author, operation⟩), intent = ⟨author, operation⟩ ∨ intent ∈ ledger.pending :=
      fun intent hintent => List.mem_cons.mp (hperm.mem_iff.mp hintent)
    refine ⟨h.bounded, ?_, ?_, ?_, ?_, ?_, hbytes⟩
    · intro id intent hintent
      dsimp only at hintent
      rcases of_getElem?_insert hintent with ⟨hid, rfl⟩ | hold
      · exact hid
      · exact h.keyed id intent hold
    · intro intent hintent
      rcases hmem intent hintent with rfl | hold
      · exact ⟨htype, hkey⟩
      · exact h.inScope intent hold
    · intro intent hintent
      rcases hmem intent hintent with rfl | hold
      · exact hencodable
      · exact h.encodable intent hold
    · have hsum := (hperm.map fun intent => intent.operation.encodedLen).sum_eq
      rw [List.map_cons, List.sum_cons, hencodable.encodedLen_eq] at hsum
      have hcounted := h.counted
      dsimp only [pending] at hcounted ⊢
      rw [hsum]
      omega
    · have hle := h.count_le
      dsimp only
      rw [ExtTreeMap.size_insert]
      split <;> omega

omit [Crypto] in
/-- A map weighs what the two halves of a filter weigh together. -/
theorem sum_treeValues_filter (map : ExtTreeMap Hash32 LocalIntent) (drop : Hash32 → Bool)
    (weight : LocalIntent → Nat) :
    ((treeValues (map.filter fun id _ => !drop id)).map weight).sum +
      ((treeValues (map.filter fun id _ => drop id)).map weight).sum =
        ((treeValues map).map weight).sum := by
  unfold treeValues
  rw [ExtTreeMap.toList_filter, ExtTreeMap.toList_filter]
  have hperm := List.filter_append_perm (fun entry => drop entry.1) map.toList
  rw [← ((hperm.map Prod.snd).map weight).sum_eq, List.map_append, List.map_append, List.sum_append]
  exact Nat.add_comm _ _

omit [Crypto] in
theorem foldl_sub (intents : List LocalIntent) (weight : LocalIntent → Nat) (count : Nat) :
    intents.foldl (fun count intent => count - weight intent) count =
      count - (intents.map weight).sum := by
  induction intents generalizing count with
  | nil => rfl
  | cons intent intents ih =>
    rw [List.foldl_cons, ih, List.map_cons, List.sum_cons, Nat.sub_sub]

/-- A removal keeps the accounts. -/
theorem Valid.removeIds (h : ledger.Valid) (ids : List Hash32) :
    (ledger.removeIds ids).2.Valid := by
  have hkept : ∀ (id : Hash32) (intent : LocalIntent),
      (ledger.intents.filter fun id _ => !ids.contains id)[id]? = some intent →
      ledger.intents[id]? = some intent := by
    intro id intent hintent
    rw [ExtTreeMap.getElem?_filter', Option.filter_eq_some_iff] at hintent
    exact hintent.1
  have hmem : ∀ intent ∈ (ledger.removeIds ids).2.pending, intent ∈ ledger.pending := by
    intro intent hintent
    obtain ⟨id, hid⟩ := mem_treeValues.mp hintent
    exact mem_treeValues.mpr ⟨id, hkept id intent hid⟩
  have hsum := sum_treeValues_filter ledger.intents ids.contains fun intent =>
    intent.operation.encodedLen
  have hcounted := h.counted
  have hbytes := h.bytes_le
  have hleft : (ledger.removeIds ids).2.encodedOperationBytes =
      ((ledger.removeIds ids).2.pending.map fun intent => intent.operation.encodedLen).sum := by
    unfold IntentLedger.removeIds pending at *
    dsimp only at hsum ⊢
    rw [foldl_sub]
    omega
  refine ⟨h.bounded, fun id intent hintent => h.keyed id intent (hkept id intent hintent),
    fun intent hintent => h.inScope intent (hmem intent hintent),
    fun intent hintent => h.encodable intent (hmem intent hintent), hleft, ?_, ?_⟩
  · exact Nat.le_trans ExtTreeMap.size_filter_le_size h.count_le
  · rw [hleft]
    unfold IntentLedger.removeIds pending at *
    dsimp only at hsum ⊢
    omega

/-! ## Encoding -/

/-- The bytes of one entry. -/
def intentBytes (intent : LocalIntent) : Bytes :=
  framed (fixedBytes intent.author) ++ framed intent.operation.bytes

def bytes (ledger : IntentLedger) : Bytes :=
  putU8 1 ++ ledger.document.put ++ putU32 (UInt32.ofNat ledger.intents.size) ++
    ledger.pending.flatMap intentBytes

omit [Crypto] in
theorem encodeIntent_eq_ok {intent : LocalIntent} (h : intent.operation.Encodable) :
    encodeIntent intent = .ok (intentBytes intent) := by
  have hlength := h.length_le
  unfold maxDomainOpBytes at hlength
  unfold encodeIntent
  rw [DomainOp.encode_eq_ok.mpr ⟨h, rfl⟩, ok_bind, putBytes, if_pos (by omega)]
  rfl

omit [Crypto] in
/-- An entry takes forty bytes beside its operation. -/
theorem length_intents {intents : List LocalIntent}
    (h : ∀ intent ∈ intents, intent.operation.Encodable) :
    (intents.flatMap intentBytes).length =
      40 * intents.length + (intents.map fun intent => intent.operation.encodedLen).sum := by
  induction intents with
  | nil => rfl
  | cons intent intents ih =>
    obtain ⟨hhead, htail⟩ := List.forall_mem_cons.mp h
    have hrest := ih htail
    rw [List.flatMap_cons, List.length_append, hrest, intentBytes, List.length_append,
      length_framed, length_framed, length_fixedBytes, List.map_cons, List.sum_cons,
      hhead.encodedLen_eq, List.length_cons]
    omega

theorem Valid.length_bytes_le (h : ledger.Valid) : ledger.bytes.length ≤ maxIntentLedgerBytes := by
  obtain ⟨hserver, hkey⟩ := h.bounded.lengths
  have hcount := h.count_le
  have hbytes := h.bytes_le
  have hlength := length_intents h.encodable
  rw [h.counted] at hbytes
  have hpending : ledger.pending.length = ledger.intents.size := length_treeValues _
  unfold maxIntentsPerDocument at hcount
  unfold maxIntentBytesPerDocument at hbytes
  simp only [bytes, List.length_append, length_putU8, LogicalDocument.length_put, length_putU32,
    hlength, hpending, maxIntentLedgerBytes]
  omega

/-- The two bounds together keep every ledger encodable. -/
theorem Valid.encode_eq (h : ledger.Valid) : ledger.encode = .ok ledger.bytes := by
  obtain ⟨hserver, hkey⟩ := h.bounded.lengths
  have hcount := h.count_le
  unfold maxIntentsPerDocument at hcount
  have hlen := h.length_bytes_le
  unfold encode
  rw [putBytes, if_pos (by omega), putBytes, if_pos (by omega), tryU32, if_pos (by omega),
    mapM_eq_ok_map fun intent hintent => encodeIntent_eq_ok (h.encodable intent hintent)]
  simp only [Except.mapError, ok_bind]
  simp only [bytes, LogicalDocument.put, List.flatMap_def, List.append_assoc] at hlen ⊢
  rw [if_neg (Nat.not_lt.mpr hlen)]

/-! ## Restoring -/

/-- The ledger with one more entry. -/
def added (author : DeviceId) (operation : DomainOp) (ledger : IntentLedger) : IntentLedger :=
  { ledger with
    intents := ledger.intents.insert (operation.id author) ⟨author, operation⟩
    encodedOperationBytes := ledger.encodedOperationBytes + operation.bytes.length }

theorem prepare_eq_added {author : DeviceId} {operation : DomainOp}
    (hfresh : ledger.intents[operation.id author]? = none)
    (htype : operation.docType = ledger.document.docType)
    (hkey : operation.logicalKey = ledger.document.logicalKey) (hencodable : operation.Encodable)
    (hcount : ledger.intents.size ≠ maxIntentsPerDocument)
    (hbytes : ledger.encodedOperationBytes + operation.bytes.length ≤ maxIntentBytesPerDocument) :
    ledger.prepare author operation =
      (.ok (operation.id author), ledger.added author operation) := by
  unfold prepare
  rw [if_neg (not_or.mpr ⟨not_not.mpr htype, not_not.mpr hkey⟩),
    DomainOp.encode_eq_ok.mpr ⟨hencodable, rfl⟩]
  dsimp only
  rw [hfresh]
  dsimp only
  rw [if_neg (not_or.mpr ⟨hcount, Nat.not_lt.mpr hbytes⟩)]
  rfl

/-- What has been restored after the entries in {lit}`done`. -/
structure Restored (target acc : IntentLedger) (done : List LocalIntent) : Prop where
  valid : acc.Valid
  document : acc.document = target.document
  entries : ∀ (id : Hash32) (intent : LocalIntent), acc.intents[id]? = some intent ↔
    intent ∈ done ∧ intent.operation.id intent.author = id
  pending : acc.pending.Perm done

theorem pairwise_pending (h : ledger.Valid) :
    ledger.pending.Pairwise fun left right =>
      left.operation.id left.author < right.operation.id right.author :=
  (pairwise_treeValues h.keyed).imp EpochGate.hash_lt_of_compare

/-- The next entry is prepared again. -/
theorem Restored.prepare {target acc : IntentLedger} {done todo : List LocalIntent}
    {intent : LocalIntent} (htarget : target.Valid)
    (hsplit : done ++ intent :: todo = target.pending)
    (h : Restored target acc done) :
    (∀ earlier ∈ done, earlier.operation.id earlier.author <
      intent.operation.id intent.author) ∧
    acc.prepare intent.author intent.operation =
      (.ok (intent.operation.id intent.author), acc.added intent.author intent.operation) ∧
    Restored target (acc.added intent.author intent.operation) (done ++ [intent]) := by
  have hmem : intent ∈ target.pending := by simp [← hsplit]
  have hsorted := pairwise_pending htarget
  rw [← hsplit, List.pairwise_append] at hsorted
  have hbelow : ∀ earlier ∈ done, earlier.operation.id earlier.author <
      intent.operation.id intent.author := fun earlier hearlier =>
    hsorted.2.2 earlier hearlier intent List.mem_cons_self
  have hfresh : acc.intents[intent.operation.id intent.author]? = none := by
    rw [Option.eq_none_iff_forall_ne_some]
    intro other hother
    obtain ⟨hdone, heq⟩ := (h.entries _ other).mp hother
    exact absurd (hbelow other hdone) (by rw [heq]; exact BitVec.lt_irrefl _)
  have hencodable := htarget.encodable intent hmem
  obtain ⟨htype, hkey⟩ := htarget.inScope intent hmem
  have hsize : acc.intents.size = done.length := by
    rw [← length_treeValues]
    exact h.pending.length_eq
  have hsum : acc.encodedOperationBytes =
      (done.map fun intent => intent.operation.encodedLen).sum := by
    rw [h.valid.counted, (h.pending.map fun intent => intent.operation.encodedLen).sum_eq]
  have hcount := htarget.count_le
  have hlength : target.pending.length = target.intents.size := length_treeValues _
  have htotal := htarget.bytes_le
  rw [htarget.counted, ← hsplit] at htotal
  rw [← hlength, ← hsplit] at hcount
  simp only [List.map_append, List.sum_append, List.map_cons, List.sum_cons,
    hencodable.encodedLen_eq] at htotal
  simp only [List.length_append, List.length_cons] at hcount
  have hprepare := prepare_eq_added hfresh (by rw [h.document]; exact htype)
    (by rw [h.document]; exact hkey) hencodable (by omega) (by omega)
  have hvalid := h.valid.prepare intent.author intent.operation
  rw [hprepare] at hvalid
  have hperm : (acc.added intent.author intent.operation).pending.Perm (done ++ [intent]) := by
    refine (treeValues_insert_perm hfresh).trans ?_
    exact (h.pending.cons intent).trans (List.perm_append_singleton intent done).symm
  refine ⟨hbelow, hprepare, hvalid, h.document, fun id other => ?_, hperm⟩
  rw [getElem?_iff_mem hvalid.keyed, ← hperm.mem_iff]
  rfl

/-- The entry loop reads a ledger's entries back. -/
theorem restoreIntents_run {target : IntentLedger} (htarget : target.Valid) (rest : Bytes) :
    ∀ (todo done : List LocalIntent) (acc : IntentLedger), done ++ todo = target.pending →
      Restored target acc done →
      ∃ final, (restoreIntents todo.length
          (done.getLast?.map fun intent => intent.operation.id intent.author) acc).run
          (todo.flatMap intentBytes ++ rest) = .ok (final, rest) ∧
        Restored target final target.pending := by
  intro todo
  induction todo with
  | nil =>
    intro done acc hsplit h
    rw [List.append_nil] at hsplit
    rw [← hsplit]
    exact ⟨acc, rfl, hsplit ▸ h⟩
  | cons intent todo ih =>
    intro done acc hsplit h
    obtain ⟨hbelow, hprepare, hnext⟩ := h.prepare htarget hsplit
    have hmem : intent ∈ target.pending := by simp [← hsplit]
    have hencodable := htarget.encodable intent hmem
    have hlength := hencodable.length_le
    unfold maxDomainOpBytes at hlength
    obtain ⟨final, hrun, hfinal⟩ := ih (done ++ [intent]) _ (by simpa using hsplit) hnext
    refine ⟨final, ?_, hfinal⟩
    have hprior : ¬ (done.getLast?.map fun intent => intent.operation.id intent.author).any
        (fun prior => decide (prior ≥ intent.operation.id intent.author)) = true := by
      cases hlast : done.getLast? with
      | none => simp
      | some earlier =>
        simpa using hbelow earlier (List.mem_of_getLast? hlast)
    rw [List.getLast?_append, List.getLast?_singleton] at hrun
    rw [List.length_cons, restoreIntents, List.flatMap_cons, intentBytes, List.append_assoc,
      List.append_assoc, (getFixed_framed (by decide) intent.author).run_bind,
      (getBytes_framed (by omega)).orMalformed.run_bind,
      Reader.run_check_bind (DomainOp.decode_encode hencodable), if_neg hprior, hprepare,
      Reader.run_check_bind rfl, if_neg (not_not.mpr rfl)]
    exact hrun

/-- A ledger is read back. -/
theorem Valid.decode_encode (h : ledger.Valid) : decode ledger.bytes = .ok ledger := by
  have hlength : ledger.pending.length = ledger.intents.size := length_treeValues _
  have hnat := UInt32.toNat_ofNat_of_lt' (Nat.lt_of_le_of_lt h.count_le (by decide))
  have hstart : Restored ledger (new ledger.document) [] := by
    refine ⟨valid_new h.bounded, rfl, fun id intent => ?_, .refl _⟩
    simp [new]
  have hget : Reads get ledger.bytes ledger := by
    intro rest
    obtain ⟨final, hrun, hfinal⟩ := restoreIntents_run h rest ledger.pending [] _ rfl hstart
    have hintents : final.intents = ledger.intents :=
      eq_of_mem_treeValues h.keyed hfinal.entries
    have hbytes : final.encodedOperationBytes = ledger.encodedOperationBytes := by
      rw [hfinal.valid.counted, h.counted]
      unfold pending
      rw [hintents]
    obtain rfl : final = ledger := by
      cases final
      cases hfinal.document
      cases hintents
      cases hbytes
      rfl
    rw [get, bytes, List.append_assoc, List.append_assoc, List.append_assoc,
      (getU8_putU8 1).orMalformed.run_bind, if_neg (by decide),
      (LogicalDocument.get_put h.bounded).run_bind, (getU32_putU32 _).orMalformed.run_bind, hnat,
      if_neg (Nat.not_lt.mpr h.count_le), ← hlength]
    exact hrun
  unfold decode
  rw [if_neg (Nat.not_lt.mpr h.length_bytes_le), hget.whole, ok_bind, h.encode_eq, ok_bind,
    if_neg (not_not.mpr rfl)]

/-! ## Runs -/

/-- What is done to a ledger. -/
inductive Event where
  | prepare (author : DeviceId) (operation : DomainOp)
  | removeReceipted (ids : List Hash32)
  | removeToManualRecovery (ids : List Hash32)
  | removeDisposed (ids : List Hash32)
  | restart

/-- A restart saves the ledger and reads it back. -/
def restart (ledger : IntentLedger) : Except ReplError IntentLedger := do
  let bytes ← ledger.encode
  decode bytes

/-- A ledger that cannot be saved or read back stays as it is; no run comes to that. -/
def step (ledger : IntentLedger) : Event → IntentLedger
  | .prepare author operation => (ledger.prepare author operation).2
  | .removeReceipted ids => (ledger.removeReceipted ids).2
  | .removeToManualRecovery ids => (ledger.removeToManualRecovery ids).2
  | .removeDisposed ids => (ledger.removeDisposed ids).2
  | .restart => match ledger.restart with
    | .ok restored => restored
    | .error _ => ledger

theorem Valid.restart_eq (h : ledger.Valid) : ledger.restart = .ok ledger := by
  unfold restart
  rw [h.encode_eq, ok_bind, h.decode_encode]

theorem Valid.step (h : ledger.Valid) (event : Event) : (ledger.step event).Valid := by
  cases event with
  | prepare author operation => exact h.prepare author operation
  | removeReceipted ids | removeToManualRecovery ids | removeDisposed ids => exact h.removeIds ids
  | restart =>
    unfold IntentLedger.step
    dsimp only
    rw [h.restart_eq]
    exact h

theorem run_keeps_valid {document : LogicalDocument} (hdocument : document.Bounded)
    (events : List Event) : (run step (new document) events).Valid := by
  refine run_induction (fun _ => True) (fun _ (ledger : IntentLedger) => ledger.Valid)
    (fun _ _ h => h)
    (valid_new hdocument) ?_ events trivial
  exact fun past event _ h => h.step event

/-- An entry that the ledger holds is prepared again without a change. -/
theorem prepare_held {author : DeviceId} {operation : DomainOp}
    (hheld : ledger.intents[operation.id author]? = some ⟨author, operation⟩)
    (htype : operation.docType = ledger.document.docType)
    (hkey : operation.logicalKey = ledger.document.logicalKey) (hencodable : operation.Encodable) :
    ledger.prepare author operation = (.ok (operation.id author), ledger) := by
  unfold prepare
  rw [if_neg (not_or.mpr ⟨not_not.mpr htype, not_not.mpr hkey⟩),
    DomainOp.encode_eq_ok.mpr ⟨hencodable, rfl⟩]
  dsimp only
  rw [hheld]
  exact if_pos ⟨rfl, rfl⟩

/-- A preparation that was accepted is accepted again and then changes nothing. -/
theorem prepare_again {author : DeviceId} {operation : DomainOp} {id : Hash32}
    {after : IntentLedger} (h : ledger.prepare author operation = (.ok id, after)) :
    after.prepare author operation = (.ok id, after) := by
  have hspec := prepare_spec author operation ledger
  rw [h] at hspec
  cases hspec with
  | retried => exact h
  | added _ htype hkey hencodable =>
    refine prepare_held ?_ htype hkey hencodable
    dsimp only
    rw [getElem?_insert_self_or, if_pos rfl]

/-- The accounts of every ledger that a run of preparations, removals and restarts reaches: the
running count is the length of the pending operations, every key is the id of its entry, both
bounds hold, and the ledger can be saved and is read back. A refused preparation changes nothing,
and neither does an exact retry. -/
theorem run_accounted (document : LogicalDocument) (hdocument : document.Bounded)
    (events : List Event) :
    let ledger := run step (new document) events
    ledger.encodedOperationBytes =
        (ledger.pending.map fun intent => intent.operation.encodedLen).sum ∧
      (∀ intent ∈ ledger.pending, intent.operation.encode = .ok intent.operation.bytes) ∧
      (∀ (id : Hash32) (intent : LocalIntent), ledger.intents[id]? = some intent →
        id = intent.operation.id intent.author) ∧
      ledger.intents.size ≤ maxIntentsPerDocument ∧
      ledger.encodedOperationBytes ≤ maxIntentBytesPerDocument ∧
      (∃ saved, ledger.encode = .ok saved ∧ saved.length ≤ maxIntentLedgerBytes ∧
        decode saved = .ok ledger) ∧
      (∀ author operation error, (ledger.prepare author operation).1 = .error error →
        (ledger.prepare author operation).2 = ledger) ∧
      (∀ author operation id after, ledger.prepare author operation = (.ok id, after) →
        after.prepare author operation = (.ok id, after)) ∧
      ∀ intent ∈ ledger.pending, ledger.prepare intent.author intent.operation =
        (.ok (intent.operation.id intent.author), ledger) := by
  intro ledger
  have hvalid : ledger.Valid := run_keeps_valid hdocument events
  refine ⟨hvalid.counted, ?_, ?_, hvalid.count_le, hvalid.bytes_le, ?_, ?_, ?_, ?_⟩
  · exact fun intent hmem => DomainOp.encode_eq_ok.mpr ⟨hvalid.encodable intent hmem, rfl⟩
  · exact fun id intent hintent => (hvalid.keyed id intent hintent).symm
  · exact ⟨ledger.bytes, hvalid.encode_eq, hvalid.length_bytes_le, hvalid.decode_encode⟩
  · intro author operation error herror
    have hspec := prepare_spec author operation ledger
    generalize ledger.prepare author operation = outcome at hspec herror
    cases hspec with
    | refused | retried => rfl
    | added => cases herror
  · exact fun author operation id after hprepare => prepare_again hprepare
  · intro intent hmem
    obtain ⟨id, hid⟩ := mem_treeValues.mp hmem
    obtain ⟨htype, hkey⟩ := hvalid.inScope intent hmem
    refine prepare_held ?_ htype hkey (hvalid.encodable intent hmem)
    rw [hvalid.keyed id intent hid]
    exact hid

omit [Crypto] in
/-- One intent of a small document, saved, read back and prepared again. -/
theorem run_accounted_one_intent :
    letI := plainCrypto
    let operation : DomainOp := ⟨0, .docRegistry, [1], [9]⟩
    let ledger := run step (new plainDocument) [.prepare 3 operation, .restart]
    plainDocument.Bounded ∧ operation.encode = .ok operation.bytes ∧ operation.bytes.length = 33 ∧
      (∃ saved, ledger.encode = .ok saved ∧ decode saved = .ok ledger) ∧
      ledger.pending = [⟨3, operation⟩] ∧
      ledger.prepare 3 operation = (.ok (operation.id 3), ledger) := by
  let := plainCrypto
  intro operation ledger
  obtain ⟨-, -, -, -, -, ⟨saved, hsaved, -, hrestored⟩, -, -, hretry⟩ :=
    run_accounted plainDocument plainDocument_bounded [.prepare 3 operation, .restart]
  have hpending : ledger.pending = [⟨3, operation⟩] := by decide +kernel
  exact ⟨plainDocument_bounded, by decide +kernel, by decide +kernel, ⟨saved, hsaved, hrestored⟩,
    hpending, hretry ⟨3, operation⟩ (hpending ▸ List.mem_singleton_self _)⟩

end IntentLedger

end Mewtual
