import Mewtual.Doc.BoundedChange
import Mewtual.Epoch.IntentLedger

/-!
# Signed operations

A change of the document with its author's signature. An operation of an epoch-managed document
also carries its domain operation, which the signature covers; the trailing version byte keeps the
two formats apart.

Main results:

- Theorem {lit}`SignedOp.decode_signed_iff`: what the decoder accepts.
- Theorem {lit}`SignedOp.signingPayload_covers`: a signature covers every field.
-/

namespace Mewtual

/-- A signed operation of a document. -/
structure SignedOp where
  docType : DocType
  docId : Fixed 16
  authorDevice : DeviceId
  authorPubkey : Bytes
  /-- The bytes of the change. -/
  delta : Bytes
  /-- The encoded domain operation. -/
  domainOp : Option Bytes
  signature : Signature
deriving DecidableEq

/-- Only raw changes within the limits are taken. -/
def checkDomainDelta (delta : Bytes) (docType : DocType) : Except ReplError Unit :=
  if delta.length > maxSignedEpochOpBytes then .error .epochBound
  else if delta.length < 10 ∨ delta.take 4 ≠ [0x85, 0x6f, 0x4a, 0x83] ∨ delta.getD 8 0 ≠ 1 then
    .error .malformed
  else BoundedChange.check delta (if docType = .docRegistry then 7 else 65536)

namespace SignedOp

/-- The label of the signed format with or without a domain operation. -/
def opLabel (hasDomain : Bool) : String := if hasDomain then "catcoms/op/v2" else "catcoms/op/v1"

/-- The bytes that an author signs. -/
def signingPayload (docType : DocType) (docId : Fixed 16) (authorPubkey delta : Bytes)
    (domainOp : Option Bytes) : Bytes :=
  framed (asciiBytes (opLabel domainOp.isSome)) ++ putU16 docType.tag ++ putU128 docId ++
    framed authorPubkey ++ framed delta ++ (domainOp.map framed).getD []

/-- The author device is left out: the key determines it. -/
def encode (op : SignedOp) : Bytes :=
  putU16 op.docType.tag ++ putU128 op.docId ++ framed op.authorPubkey ++ framed op.delta ++
    framed (fixedBytes op.signature) ++
      (op.domainOp.map fun domain => putU8 2 ++ framed domain).getD []

/-- The optional domain operation at the end, of the same type. -/
def getDomain (docType : DocType) : Parser (Option Bytes) := fun input =>
  if input.isEmpty then .ok (none, input)
  else
    (do
      let version ← Decoder.orMalformed getU8
      if version ≠ 2 then throw .malformed
      let encoded ← Decoder.orMalformed getBytes
      let parsed ← Reader.check (DomainOp.decode encoded)
      if parsed.docType ≠ docType then throw .epochScope
      pure (some encoded) : Parser (Option Bytes)).run input

/-- Read the fields of an operation. -/
def get [Crypto] : Parser SignedOp := do
  let tag ← Decoder.orMalformed getU16
  let docType ← Reader.check ((DocType.fromTag tag).elim (.error .malformed) .ok)
  let docId ← Decoder.orMalformed getU128
  let authorPubkey ← Decoder.orMalformed getBytes
  let delta ← Decoder.orMalformed getBytes
  let signature ← getFixed 64
  let domainOp ← getDomain docType
  pure ⟨docType, docId, Crypto.deviceOfKey authorPubkey, authorPubkey, delta, domainOp, signature⟩

/-- Decode an operation and use up the input. -/
def decode [Crypto] (bytes : Bytes) : Except ReplError SignedOp := do
  let op ← Reader.whole .malformed get bytes
  if op.domainOp.isSome then do
    checkDomainDelta op.delta op.docType
    pure op
  else pure op

/-! ## Decoding -/

/-- Fields that fit their frames. -/
structure Framable (authorPubkey delta : Bytes) (domainOp : Option Bytes) : Prop where
  pubkey : authorPubkey.length < 2 ^ 32
  delta : delta.length < 2 ^ 32
  domain : ∀ domain ∈ domainOp, domain.length < 2 ^ 32

/-- What decoding requires of an operation. -/
structure WellFormed [Crypto] (op : SignedOp) : Prop where
  framable : Framable op.authorPubkey op.delta op.domainOp
  author : op.authorDevice = Crypto.deviceOfKey op.authorPubkey
  domain : ∀ domain ∈ op.domainOp, ∃ parsed, DomainOp.decode domain = .ok parsed ∧
    parsed.docType = op.docType ∧ checkDomainDelta op.delta op.docType = .ok ()

@[simp] theorem length_encode (op : SignedOp) :
    op.encode.length = 94 + op.authorPubkey.length + op.delta.length +
      (op.domainOp.map fun domain => 5 + domain.length).getD 0 := by
  unfold encode
  cases op.domainOp with
  | none =>
    simp only [List.length_append, length_putU16, length_putU128, length_framed,
      length_fixedBytes, Option.map_none, Option.getD_none, List.length_nil]
    omega
  | some domain =>
    simp only [List.length_append, length_putU16, length_putU128, length_framed,
      length_fixedBytes, Option.map_some, Option.getD_some, length_putU8]
    omega

theorem accepts_getDomain {docType : DocType} {input : Bytes} {domainOp : Option Bytes} :
    Accepts (getDomain docType) input domainOp [] ↔
      input = (domainOp.map fun domain => putU8 2 ++ framed domain).getD [] ∧
      ∀ domain ∈ domainOp, domain.length < 2 ^ 32 ∧
        ∃ parsed, DomainOp.decode domain = .ok parsed ∧ parsed.docType = docType := by
  change (if input.isEmpty then _ else _) = _ ↔ _
  split <;> rename_i hempty
  · cases List.isEmpty_iff.mp hempty
    cases domainOp <;> simp [putU8]
  · change Accepts _ _ _ _ ↔ _
    cases domainOp with
    | none => simpa using hempty
    | some domain => simp [and_assoc]

theorem accepts_get [Crypto] {bytes : Bytes} {op : SignedOp} :
    Accepts get bytes op [] ↔ bytes = op.encode ∧ op.authorPubkey.length < 2 ^ 32 ∧
      op.delta.length < 2 ^ 32 ∧
      (∀ domain ∈ op.domainOp, domain.length < 2 ^ 32 ∧
        ∃ parsed, DomainOp.decode domain = .ok parsed ∧ parsed.docType = op.docType) ∧
      Crypto.deviceOfKey op.authorPubkey = op.authorDevice := by
  have htag (tag : UInt16) (docType : DocType) :
      (DocType.fromTag tag).elim (.error .malformed) .ok = (.ok docType : Except ReplError _) ↔
        tag = docType.tag := by
    rw [← DocType.fromTag_eq_some]
    cases DocType.fromTag tag <;> simp
  obtain ⟨docType, docId, device, key, delta, domainOp, signature⟩ := op
  simp [get, encode, htag, accepts_getFixed, accepts_getDomain, and_assoc]

/-- The decoder accepts exactly the encodings of well-formed operations. -/
theorem decode_signed_iff [Crypto] {bytes : Bytes} {op : SignedOp} :
    decode bytes = .ok op ↔ bytes = op.encode ∧ op.WellFormed := by
  have hdelta (found : SignedOp) :
      (if found.domainOp.isSome then do
        checkDomainDelta found.delta found.docType
        pure found
      else pure found) = .ok op ↔
        found = op ∧ ∀ domain ∈ found.domainOp,
          checkDomainDelta found.delta found.docType = .ok () := by
    cases found.domainOp <;> simp [bind_eq_ok, pure, Except.pure, and_comm, Unique.exists_iff]
  simp only [decode, bind_eq_ok, whole_eq_ok, accepts_get, hdelta]
  constructor
  · rintro ⟨_, ⟨hbytes, hkey, hchange, hdomain, hauthor⟩, rfl, hcheck⟩
    refine ⟨hbytes, ⟨hkey, hchange, fun domain hmem => (hdomain domain hmem).1⟩, hauthor.symm, ?_⟩
    intro domain hmem
    obtain ⟨-, parsed, hparsed, htype⟩ := hdomain domain hmem
    exact ⟨parsed, hparsed, htype, hcheck domain hmem⟩
  · rintro ⟨hbytes, h⟩
    refine ⟨op, ⟨hbytes, h.framable.pubkey, h.framable.delta, ?_, h.author.symm⟩, rfl, ?_⟩
    · intro domain hmem
      obtain ⟨parsed, hparsed, htype, -⟩ := h.domain domain hmem
      exact ⟨h.framable.domain domain hmem, parsed, hparsed, htype⟩
    · intro domain hmem
      obtain ⟨-, -, -, hcheck⟩ := h.domain domain hmem
      exact hcheck

/-! ## Signatures -/

/-- What the author of an operation signs. -/
def payload (op : SignedOp) : Bytes :=
  signingPayload op.docType op.docId op.authorPubkey op.delta op.domainOp

/-- A signature covers every field of a well-formed operation. -/
theorem signingPayload_covers [Crypto] (left right : {op : SignedOp // op.WellFormed}) :
    left.1.payload = right.1.payload ↔ left.1 = { right.1 with signature := left.1.signature } := by
  obtain ⟨⟨docType, docId, device, key, delta, domainOp, signature⟩, h, hauthor, -⟩ := left
  obtain ⟨⟨_, _, device', key', delta', domainOp', _⟩, h', hauthor', -⟩ := right
  refine ⟨fun heq => ?_, fun heq => by cases heq; rfl⟩
  have hlabel : ∀ hasDomain, (asciiBytes (opLabel hasDomain)).length < 2 ^ 32 := by decide
  have hlabels : ∀ left right, asciiBytes (opLabel left) = asciiBytes (opLabel right) →
      left = right := by decide
  simp only [payload, signingPayload, List.append_assoc, framed_append_inj (hlabel _) (hlabel _),
    putU16_append_inj, putU128_append_inj, framed_append_inj h.pubkey h'.pubkey,
    framed_append_inj h.delta h'.delta, DocType.tag_inj] at heq
  obtain ⟨hdomain, rfl, rfl, rfl, rfl, heq⟩ := heq
  have hdevice : device = device' := hauthor.trans hauthor'.symm
  cases hdevice
  have hdomain := hlabels _ _ hdomain
  cases domainOp with
  | none =>
    cases domainOp' with
    | none => rfl
    | some domain => cases hdomain
  | some domain =>
    cases domainOp' with
    | none => cases hdomain
    | some domain' =>
      obtain rfl : domain = domain' :=
        (framed_inj (h.domain domain rfl) (h'.domain domain' rfl)).mp heq
      rfl

end SignedOp
end Mewtual
