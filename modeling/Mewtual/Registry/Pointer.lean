import Mewtual.Epoch.Primitives
import Mewtual.Lib.Text

/-!
# Pointer keys of a registry

A registry bucket points to creative documents by type and logical key. A pointer key is spelled as
a text in the keys of the replicated document, and only its canonical spelling is read.

Main results:

- Theorem {lit}`PointerKey.fromSuffix_suffix`: a key is read back from its spelling.
- Theorem {lit}`PointerKey.suffix_of_fromSuffix`: only the canonical spelling is read.
-/

namespace Mewtual

open Std

def maxRegistryPointers : Nat := 2048

/-- The types a registry points to. -/
def isCreative : DocType → Bool
  | .studioIndex | .studioObject | .postReplies => true
  | _ => false

/-- Type and logical key of a creative document. -/
structure PointerKey where
  docType : DocType
  key : Bytes
  creative : isCreative docType = true
  key_ne : key ≠ []
  key_le : key.length ≤ 192
deriving DecidableEq

namespace PointerKey

/-- A key of a creative document type, within its length. -/
def new (docType : DocType) (key : Bytes) : Except ReplError PointerKey :=
  if h : isCreative docType = true ∧ key ≠ [] ∧ key.length ≤ 192 then
    .ok ⟨docType, key, h.1, h.2.1, h.2.2⟩
  else .error .epochScope

theorem new_eq (key : PointerKey) : new key.docType key.key = .ok key := by
  unfold new
  rw [dif_pos ⟨key.creative, key.key_ne, key.key_le⟩]

/-! ## Order -/

/-- The derived order: by type in the order of the tags, then by key. -/
instance : Ord PointerKey where
  compare := compareLex (compareOn fun key => key.docType.tag.toNat) (compareOn PointerKey.key)

instance : TransOrd PointerKey :=
  inferInstanceAs (TransCmp (compareLex (compareOn fun key : PointerKey => key.docType.tag.toNat)
    (compareOn PointerKey.key)))

instance : LawfulEqOrd PointerKey where
  eq_of_compare {left right} h := by
    have h : compareLex (compareOn fun key : PointerKey => key.docType.tag.toNat)
      (compareOn PointerKey.key) left right = .eq := h
    rw [compareLex_eq_eq] at h
    obtain ⟨htag, hkey⟩ := h
    have htag : left.docType.tag.toNat = right.docType.tag.toNat :=
      LawfulEqCmp.eq_of_compare htag
    have hkey : left.key = right.key := LawfulEqCmp.eq_of_compare hkey
    have htype := DocType.tag_inj.mp (UInt16.toNat_inj.mp htag)
    cases left
    cases right
    cases htype
    cases hkey
    rfl

/-! ## Buckets and spelling -/

/-- The bucket is the first byte of a hash of type and key. -/
def bucket [Crypto] (key : PointerKey) : UInt8 :=
  (fixedBytes (hashParts "catcoms-registry-bucket:v1"
    [putU64 key.docType.tag.toUInt64, key.key])).headD 0

/-- Four digits of the type's tag, a slash, and the digits of the key. -/
def suffix (key : PointerKey) : Bytes :=
  hex (putU16 key.docType.tag) ++ 47 :: hex key.key

/-- Lower-case digits of at most 192 bytes. -/
def unhex (text : Bytes) : Except ReplError Bytes :=
  if text.length > 384 ∨ text.length % 2 ≠ 0 ∨ text.all isLowerHex = false then .error .malformed
  else
    match hexBytes text with
    | none => .error .malformed
    | some bytes => .ok bytes

/-- Parse the suffix of a root key. -/
def fromSuffix (text : Bytes) : Except ReplError PointerKey :=
  match splitOnce 47 text with
  | none => .error .malformed
  | some (tag, key) =>
    if tag.length ≠ 4 then .error .malformed
    else
      match (radix16 tag).bind fun tag => DocType.fromTag (UInt16.ofNat tag) with
      | none => .error .malformed
      | some docType => do
        let key ← unhex key
        let result ← new docType key
        if result.suffix ≠ text then .error .malformed else .ok result

theorem unhex_hex {bytes : Bytes} (h : bytes.length ≤ 192) : unhex (hex bytes) = .ok bytes := by
  unfold unhex
  rw [if_neg, hexBytes_hex]
  rw [length_hex]
  have hlower : (hex bytes).all isLowerHex = true :=
    List.all_eq_true.mpr fun digit hdigit => isLowerHex_of_mem_hex hdigit
  rw [hlower]
  rintro (hlong | hodd | hfalse)
  · omega
  · omega
  · cases hfalse

theorem slash_not_mem_hex (bytes : Bytes) : 47 ∉ hex bytes := fun hmem =>
  absurd (isLowerHex_of_mem_hex hmem) (by decide)

theorem fromSuffix_suffix (key : PointerKey) : fromSuffix key.suffix = .ok key := by
  have hsplit : splitOnce 47 key.suffix = some (hex (putU16 key.docType.tag), hex key.key) :=
    splitOnce_append (slash_not_mem_hex _) _
  have hlength : (hex (putU16 key.docType.tag)).length = 4 := by
    rw [length_hex, putU16, length_beBytes]
  have hradix : radix16 (hex (putU16 key.docType.tag)) = some key.docType.tag.toNat := by
    rw [radix16_hex (by simp [putU16, beBytes]), putU16, beNat_beBytes]
    exact key.docType.tag.toNat_lt
  unfold fromSuffix
  rw [hsplit]
  dsimp only
  rw [if_neg (fun hne => hne hlength), hradix, Option.bind_some, UInt16.ofNat_toNat,
    DocType.fromTag_tag]
  dsimp only
  rw [unhex_hex key.key_le, ok_bind, new_eq, ok_bind, if_neg (fun hne => hne rfl)]

theorem suffix_of_fromSuffix {text : Bytes} {key : PointerKey} (h : fromSuffix text = .ok key) :
    key.suffix = text := by
  unfold fromSuffix at h
  split at h
  · cases h
  obtain ⟨-, h⟩ := guard_eq_ok.mp h
  split at h
  · cases h
  obtain ⟨bytes, -, h⟩ := bind_eq_ok.mp h
  obtain ⟨result, -, h⟩ := bind_eq_ok.mp h
  obtain ⟨hsame, h⟩ := guard_eq_ok.mp h
  cases h
  exact not_not.mp hsame

theorem suffix_injective {left right : PointerKey} (h : left.suffix = right.suffix) :
    left = right := by
  have hleft := fromSuffix_suffix left
  rw [h, fromSuffix_suffix] at hleft
  exact (Except.ok.inj hleft).symm

end PointerKey
end Mewtual
