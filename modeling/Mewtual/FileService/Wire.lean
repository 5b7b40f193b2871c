import Mewtual.Epoch.Primitives

/-!
# Signed file-page frames

The grant a requester signs for one helper and its permitted sources, and the delivery with
which the helper forwards that grant to one source. Parsing is structural: it establishes no
membership, freshness or rate.

Main results:

- Theorem {lit}`Grant.valid_of_parse`: what a parsed grant satisfies.
-/

namespace Mewtual

def fileServiceRequestMaxBytes : Nat := 2 * 1024

def fileServiceResponseMaxBytes : Nat := 72 * 1024

def maxSourceChunk : Nat := 8 * 1024 * 1024 + 44

def maxPageBytes : Nat := 64 * 1024

def maxSources : Nat := 4

def maxGrantBytes : Nat := 707

def maxDeliveryBytes : Nat := 893

def fileBridgeKind : UInt8 := 29

def fileSourceKind : UInt8 := 30

/-- A 16-byte request nonce. -/
abbrev Nonce := Fixed 16

/-- The errors parsing a frame can return. -/
inductive FrameError where
  | bounds
  | malformed
  deriving DecidableEq, Repr

/-- A decoder whose wire errors are malformed frames. -/
def Decoder.orFrame {α : Type} (decoder : Decoder α) : Reader FrameError α := fun input =>
  (decoder.run input).mapError fun _ => .malformed

/-- Read a byte field of exactly {lit}`n` bytes. -/
def fixedField (n : Nat) : Reader FrameError (Fixed n) := do
  let bytes ← Decoder.orFrame getBytes
  if bytes.length ≠ n then throw .malformed
  pure (BitVec.ofNat (8 * n) (beNat bytes))

/-- A frame with its signer's key and signature. -/
structure Signed where
  raw : Bytes
  body : Bytes
  key : Fixed 32
  signature : Signature
  deriving DecidableEq, Repr

namespace Signed

/-- Read a signed frame. -/
def read (raw : Bytes) (tag : UInt8) : Reader FrameError Signed := do
  let found ← Decoder.orFrame getU8
  if found ≠ tag then throw .malformed
  let body ← Decoder.orFrame getBytes
  let key ← fixedField 32
  let signature ← fixedField 64
  Decoder.orFrame finish
  pure ⟨raw, body, key, signature⟩

/-- Parse a signed frame within its limit. -/
def parse (raw : Bytes) (tag : UInt8) (limit : Nat) : Except FrameError Signed := do
  if raw.length > limit then throw .bounds
  let (signed, _) ← (read raw tag).run raw
  pure signed

def signer [Crypto] (signed : Signed) : DeviceId := Crypto.deviceOfKey (fixedBytes signed.key)

/-- The domain and the body, framed. -/
def payload (domain : String) (body : Bytes) : Bytes := framed (asciiBytes domain) ++ framed body

/-- Check the signature of a frame under its domain. -/
def verify [Crypto] (signed : Signed) (domain : String) : Bool :=
  Crypto.verifyWithPublicBytes (fixedBytes signed.key) (payload domain signed.body)
    signed.signature

end Signed

/-- The part of a file that a grant asks for. -/
structure FileWindow where
  cid : Hash32
  maxCipherBytes : UInt32
  offset : UInt32
  length : UInt32
  deriving DecidableEq, Repr

def FileWindow.Valid (window : FileWindow) : Prop :=
  window.maxCipherBytes ≠ 0 ∧ window.maxCipherBytes.toNat ≤ maxSourceChunk
    ∧ window.offset < window.maxCipherBytes ∧ window.length ≠ 0
    ∧ window.length.toNat ≤ maxPageBytes

instance (window : FileWindow) : Decidable window.Valid :=
  inferInstanceAs (Decidable (_ ∧ _))

/-- A structurally checked original grant. -/
structure Grant where
  frame : Signed
  group : Bytes
  epoch : UInt64
  helper : DeviceId
  helperPeer : PeerId
  requesterPeer : PeerId
  window : FileWindow
  sources : List DeviceId
  createdMs : UInt64
  nonce : Nonce
  deriving DecidableEq, Repr

namespace Grant

variable [Crypto]

def requester (grant : Grant) : DeviceId := grant.frame.signer

/-- The requester, the helper and each permitted source are distinct. -/
def Valid (grant : Grant) : Prop :=
  grant.group ≠ [] ∧ grant.group.length ≤ 256 ∧ grant.window.Valid
    ∧ grant.helper ≠ grant.requester ∧ grant.helperPeer ≠ grant.requesterPeer
    ∧ grant.sources ≠ [] ∧ grant.sources.length ≤ maxSources
    ∧ grant.sources.IsChain (· < ·)
    ∧ ∀ source ∈ grant.sources, source ≠ grant.requester ∧ source ≠ grant.helper

instance (grant : Grant) : Decidable grant.Valid :=
  inferInstanceAs (Decidable (_ ∧ _))

/-- Read the body of a signed grant. -/
def read (frame : Signed) : Reader FrameError Grant := do
  let version ← Decoder.orFrame getU8
  if version ≠ 1 then throw .malformed
  let group ← Decoder.orFrame getBytes
  let epoch ← Decoder.orFrame getU64
  let helper ← fixedField 32
  let helperPeer ← fixedField 32
  let requesterPeer ← fixedField 32
  let cid ← fixedField 32
  let maxCipherBytes ← Decoder.orFrame getU32
  let offset ← Decoder.orFrame getU32
  let length ← Decoder.orFrame getU32
  let sourceCount ← Decoder.orFrame getU8
  if sourceCount.toNat = 0 ∨ sourceCount.toNat > maxSources then throw .bounds
  let sources ← Reader.times (fixedField 32) sourceCount.toNat
  let createdMs ← Decoder.orFrame getU64
  let nonce ← fixedField 16
  Decoder.orFrame finish
  pure ⟨frame, group, epoch, helper, helperPeer, requesterPeer,
    ⟨cid, maxCipherBytes, offset, length⟩, sources, createdMs, nonce⟩

/-- Parse a grant. -/
def parse (raw : Bytes) : Except FrameError Grant := do
  let frame ← Signed.parse raw fileBridgeKind maxGrantBytes
  let (grant, _) ← (read frame).run frame.body
  if ¬ grant.Valid then throw .malformed
  pure grant

/-- The hash of the complete signed frame. -/
def hash [Blake3] (grant : Grant) : Hash32 := Blake3.blake3 grant.frame.raw

def verifySignature (grant : Grant) : Bool := grant.frame.verify "mewtual/file/bridge-grant/v1"

/-- A parsed grant passed its structural checks. -/
theorem valid_of_parse {raw : Bytes} {grant : Grant} (h : parse raw = .ok grant) :
    grant.Valid := by
  rcases bind_eq_ok.mp h with ⟨frame, -, h⟩
  rcases bind_eq_ok.mp h with ⟨⟨parsed, left⟩, -, h⟩
  rcases guard_eq_ok.mp h with ⟨hvalid, h⟩
  cases h
  exact not_not.mp hvalid

end Grant

/-- A helper's one-hop delivery of a grant to one of its sources. -/
structure Delivery where
  frame : Signed
  grant : Grant
  source : DeviceId
  sourcePeer : PeerId
  deriving DecidableEq, Repr

namespace Delivery

variable [Crypto]

def Valid (delivery : Delivery) : Prop :=
  delivery.frame.signer = delivery.grant.helper
    ∧ delivery.source ∈ delivery.grant.sources
    ∧ delivery.sourcePeer ≠ delivery.grant.helperPeer
    ∧ delivery.sourcePeer ≠ delivery.grant.requesterPeer

instance (delivery : Delivery) : Decidable delivery.Valid :=
  inferInstanceAs (Decidable (_ ∧ _))

/-- Read the body of a signed delivery. -/
def read (frame : Signed) : Reader FrameError Delivery := do
  let version ← Decoder.orFrame getU8
  if version ≠ 1 then throw .malformed
  let raw ← Decoder.orFrame getBytes
  match Grant.parse raw with
  | .error error => throw error
  | .ok grant =>
    let source ← fixedField 32
    let sourcePeer ← fixedField 32
    Decoder.orFrame finish
    pure ⟨frame, grant, source, sourcePeer⟩

/-- Parse a delivery. -/
def parse (raw : Bytes) : Except FrameError Delivery := do
  let frame ← Signed.parse raw fileSourceKind maxDeliveryBytes
  let (delivery, _) ← (read frame).run frame.body
  if ¬ delivery.Valid then throw .malformed
  pure delivery

def verifySignature (delivery : Delivery) : Bool :=
  delivery.frame.verify "mewtual/file/bridge-delivery/v1"

end Delivery

end Mewtual
