import Mewtual.Epoch.Primitives

/-!
# Plans of kept files

A plan names one exact encrypted copy of a file: its content address, the digest and the bytes of
its manifest, and every chunk with a bound on its encoded size. A plan that passes
{lit}`KeepPlan.charge` is written in one way and read back.

Main results:

- Theorem {lit}`KeepPlan.decode_eq_ok`: what is accepted is the encoding of a plan within its
  bounds.
- Theorem {lit}`KeepPlan.length_encode_le`: no plan takes more than 71249 bytes.
-/

namespace Mewtual
namespace Kept

/-- Errors of the retained store. -/
inductive StorageError where
  | malformed
  | blobSizeLimit
  | keepExhausted
  | keepWorkExpired
  | crypto
  | io (message : String)
  | committedButNotDurable (message : String)
deriving DecidableEq

/-- A content address. -/
abbrev Cid := Fixed 32

/-- A decoder whose wire errors are malformed records. -/
def orMalformed {α : Type} (decoder : Decoder α) : Reader StorageError α :=
  Reader.mapError (fun _ => .malformed) decoder

variable {input left : Bytes}

@[simp] theorem accepts_orMalformed {α : Type} {decoder : Decoder α} {value : α} :
    Accepts (orMalformed decoder) input value left ↔ Accepts decoder input value left :=
  accepts_mapError

/-- A byte field that must hold a 32-byte array. -/
def getHash : Reader StorageError Hash32 := getArray .malformed 32

@[simp] theorem accepts_getHash {value : Hash32} :
    Accepts getHash input value left ↔ input = putHash value ++ left := by
  simp [getHash, putHash]

/-! ## Bits -/

def putBit (bit : Bool) : UInt8 := if bit then 1 else 0

/-- A flag byte is zero or one. -/
def getBit : Reader StorageError Bool := do
  let byte ← orMalformed getU8
  if byte = 0 then pure false
  else if byte = 1 then pure true
  else throw .malformed

@[simp] theorem accepts_getBit {bit : Bool} :
    Accepts getBit input bit left ↔ input = putU8 (putBit bit) ++ left := by
  cases bit <;> simp [getBit, putBit]

/-- A bitmap is written with one byte for each bit. -/
def putBitmap (bits : List Bool) : Bytes := framed (bits.map putBit)

/-- A bitmap of a known number of bits. -/
def getBitmap (count : Nat) : Reader StorageError (List Bool) := do
  let bitmap ← orMalformed getBytes
  if bitmap.length ≠ count ∨ bitmap.any fun bit => bit > 1 then throw .malformed
  pure (bitmap.map fun bit => bit == 1)

theorem putBit_eq_one {byte : UInt8} (h : byte ≤ 1) : putBit (byte == 1) = byte := by
  have hle : byte.toNat ≤ 1 := UInt8.le_iff_toNat_le.mp h
  have hcases : byte.toNat = 0 ∨ byte.toNat = 1 := by omega
  rcases hcases with hzero | hone
  · rw [show byte = 0 from UInt8.toNat_inj.mp hzero]
    rfl
  · rw [show byte = 1 from UInt8.toNat_inj.mp hone]
    rfl

/-- The bytes of a bitmap are those of its bits. -/
theorem eq_map_putBit {bitmap : Bytes} {bits : List Bool} : bitmap = bits.map putBit ↔
    (∀ byte ∈ bitmap, byte ≤ 1) ∧ bitmap.map (fun byte => byte == 1) = bits := by
  constructor
  · rintro rfl
    refine ⟨List.forall_mem_map.mpr fun bit _ => by cases bit <;> decide, ?_⟩
    rw [List.map_map]
    exact (List.map_congr_left fun bit _ => by cases bit <;> rfl).trans (List.map_id bits)
  · rintro ⟨hsmall, rfl⟩
    rw [List.map_map]
    refine (List.map_id bitmap).symm.trans (List.map_congr_left fun byte hbyte => ?_)
    exact (putBit_eq_one (hsmall byte hbyte)).symm

@[simp] theorem accepts_getBitmap {count : Nat} {bits : List Bool} :
    Accepts (getBitmap count) input bits left ↔
      input = putBitmap bits ++ left ∧ bits.length < 2 ^ 32 ∧ bits.length = count := by
  simp [getBitmap, putBitmap, and_assoc, ← eq_map_putBit]

/-! ## Plans -/

def chunkLimit : Nat := 128

def chunkPadCeiling : Nat := 8 * 1024 * 1024

def chunkLimitBytes : Nat := chunkPadCeiling + 44

def manifestLimit : Nat := 64 * 1024

/-- What a transfer keeps. -/
structure KeepPlan where
  cid : Cid
  version : Hash32
  manifest : Bytes
  chunks : List (Cid × UInt64)
deriving DecidableEq

namespace KeepPlan

def putChunk (chunk : Cid × UInt64) : Bytes := putHash chunk.1 ++ putU64 chunk.2

def getChunk : Reader StorageError (Cid × UInt64) := do
  let cid ← getHash
  let bound ← orMalformed getU64
  pure (cid, bound)

/-- The bytes of a plan. -/
def encode (plan : KeepPlan) : Bytes :=
  putU8 1 ++ (putHash plan.cid ++ (putHash plan.version ++ (framed plan.manifest
    ++ (putU32 (UInt32.ofNat plan.chunks.length) ++ plan.chunks.flatMap putChunk))))

/-- The reserved bytes of a plan, or a refusal when it is out of bounds. -/
def charge (plan : KeepPlan) : Except StorageError Nat :=
  if plan.chunks = [] ∨ plan.chunks.length > chunkLimit ∨ plan.manifest.length > manifestLimit ∨
      (plan.chunks.any fun chunk => chunk.2.toNat > chunkLimitBytes) ∨
      (plan.chunks.map Prod.fst).dedup.length ≠ plan.chunks.length then
    .error .blobSizeLimit
  else .ok ((plan.chunks.map fun chunk => chunk.2.toNat + 40).sum + plan.encode.length + 40)

/-- Read a plan. -/
def get : Reader StorageError KeepPlan := do
  let format ← orMalformed getU8
  if format ≠ 1 then throw .malformed
  let cid ← getHash
  let version ← getHash
  let manifest ← orMalformed getBytes
  if manifest.length > manifestLimit then throw .malformed
  let count ← orMalformed getU32
  if count.toNat > chunkLimit then throw .malformed
  let chunks ← Reader.times getChunk count.toNat
  pure ⟨cid, version, manifest, chunks⟩

/-- Decode a plan and check it. -/
def decode (bytes : Bytes) : Except StorageError KeepPlan := do
  let plan ← get.whole .malformed bytes
  let _ ← plan.charge
  pure plan

/-- What {lit}`charge` checks. -/
structure Bounded (plan : KeepPlan) : Prop where
  chunks_ne : plan.chunks ≠ []
  chunks_le : plan.chunks.length ≤ chunkLimit
  manifest_le : plan.manifest.length ≤ manifestLimit
  bound_le : ∀ chunk ∈ plan.chunks, chunk.2.toNat ≤ chunkLimitBytes
  distinct : (plan.chunks.map Prod.fst).Nodup

variable {plan : KeepPlan}

theorem bounded_of_charge {charge : Nat} (h : plan.charge = .ok charge) : plan.Bounded := by
  unfold KeepPlan.charge at h
  split at h
  · cases h
  · rename_i hbounds
    simp only [not_or, Nat.not_lt, Bool.not_eq_true, List.any_eq_false, decide_eq_true_eq,
      not_not] at hbounds
    obtain ⟨hne, hchunks, hmanifest, hbound, hdistinct⟩ := hbounds
    refine ⟨hne, hchunks, hmanifest, hbound, ?_⟩
    have hsame : (plan.chunks.map Prod.fst).dedup = plan.chunks.map Prod.fst :=
      (List.dedup_sublist _).eq_of_length (by rw [hdistinct, List.length_map])
    exact List.dedup_eq_self.mp hsame

@[simp] theorem accepts_getChunk {chunk : Cid × UInt64} :
    Accepts getChunk input chunk left ↔ input = putChunk chunk ++ left := by
  cases chunk
  simp [getChunk, putChunk]

@[simp] theorem length_putChunk (chunk : Cid × UInt64) : (putChunk chunk).length = 44 := by
  simp [putChunk]

theorem length_encode (plan : KeepPlan) :
    plan.encode.length = 81 + plan.manifest.length + plan.chunks.length * 44 := by
  simp only [encode, List.length_append, length_putU8, length_putHash, length_framed,
    length_putU32, length_flatMap_const length_putChunk]
  omega

/-- The largest plan of the source's own calculation. -/
theorem length_encode_le (h : plan.Bounded) : plan.encode.length ≤ 71249 := by
  have hchunks := h.chunks_le
  have hmanifest := h.manifest_le
  unfold chunkLimit at hchunks
  unfold manifestLimit at hmanifest
  rw [length_encode]
  omega

/-- A plan is accepted exactly behind its encoding, within the bounds its reader checks. -/
theorem accepts_get : Accepts get input plan left ↔ input = plan.encode ++ left ∧
    plan.manifest.length ≤ manifestLimit ∧ plan.chunks.length ≤ chunkLimit := by
  obtain ⟨cid, version, manifest, chunks⟩ := plan
  have htimes : ∀ {input left : Bytes} {count : Nat}, Accepts (Reader.times getChunk count) input
      chunks left ↔ input = chunks.flatMap putChunk ++ left ∧ chunks.length = count := by
    intro input left count
    rw [accepts_times putChunk (fun _ => True) (by simp)]
    simp
  simp only [get, ne_eq, gt_iff_lt, bind_pure_comp, ite_not, accepts_bind, accepts_orMalformed,
    accepts_getU8, accepts_ite, accepts_getHash, accepts_getBytes, not_accepts_throw,
    accepts_getU32, accepts_map, mk.injEq, existsAndEq, htimes, and_true, false_and, exists_const,
    and_false, not_lt, false_or, true_and, or_false, encode, List.append_assoc]
  constructor
  · rintro ⟨count, rfl, -, hmanifest, hchunks, hcount⟩
    rw [hcount, UInt32.ofNat_toNat]
    exact ⟨rfl, hmanifest, hchunks⟩
  · rintro ⟨rfl, hmanifest, hchunks⟩
    have hcount : (UInt32.ofNat chunks.length).toNat = chunks.length :=
      UInt32.toNat_ofNat_of_lt' (lt_of_le_of_lt hchunks (by decide))
    exact ⟨_, rfl, lt_of_le_of_lt hmanifest (by decide), hmanifest, hcount.trans_le hchunks,
      hcount.symm⟩

/-- What is accepted is the encoding of a plan within its bounds. -/
theorem decode_eq_ok {bytes : Bytes} :
    decode bytes = .ok plan ↔ bytes = plan.encode ∧ ∃ charge, plan.charge = .ok charge := by
  rw [decode, bind_eq_ok]
  simp only [whole_eq_ok, accepts_get, List.append_nil, bind_eq_ok]
  constructor
  · rintro ⟨found, ⟨rfl, -⟩, charge, hcharge, hfound⟩
    cases hfound
    exact ⟨rfl, charge, hcharge⟩
  · rintro ⟨rfl, charge, hcharge⟩
    have hbounded := bounded_of_charge hcharge
    exact ⟨plan, ⟨rfl, hbounded.manifest_le, hbounded.chunks_le⟩, charge, hcharge, rfl⟩

end KeepPlan

end Kept
end Mewtual
