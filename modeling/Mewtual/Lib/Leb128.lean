import Mewtual.Lib.Bytes

/-!
# Base-128 numbers

A number is written in groups of seven bits, the lowest first; every byte but the last has its high
bit set. A signed number is in two's complement: the last group is negative if its highest bit is
set. The readers here give the number itself, of any size.

Main results:

- Theorems {lit}`readUleb_shortens` and {lit}`readSleb_shortens`: a number takes at least one byte.
-/

namespace Mewtual

/-- The unsigned number at the front of the bytes, and the bytes after it. -/
def readUleb : Bytes → Option (Nat × Bytes)
  | [] => none
  | byte :: rest =>
    if byte.toNat < 128 then some (byte.toNat, rest)
    else (readUleb rest).map fun (number, rest) => (byte.toNat - 128 + 128 * number, rest)

/-- The signed number at the front of the bytes, and the bytes after it. -/
def readSleb : Bytes → Option (Int × Bytes)
  | [] => none
  | byte :: rest =>
    if byte.toNat < 64 then some (byte.toNat, rest)
    else if byte.toNat < 128 then some (byte.toNat - 128, rest)
    else (readSleb rest).map fun (number, rest) => (byte.toNat - 128 + 128 * number, rest)

theorem readUleb_shortens {bytes rest : Bytes} {number : Nat}
    (h : readUleb bytes = some (number, rest)) : rest.length < bytes.length := by
  induction bytes generalizing number with
  | nil => cases h
  | cons byte bytes ih =>
    unfold readUleb at h
    split at h
    · cases h
      exact Nat.lt_succ_self _
    · obtain ⟨⟨found, left⟩, hfound, hsame⟩ := Option.map_eq_some_iff.mp h
      cases hsame
      exact Nat.lt_succ_of_lt (ih hfound)

theorem readSleb_shortens {bytes rest : Bytes} {number : Int}
    (h : readSleb bytes = some (number, rest)) : rest.length < bytes.length := by
  induction bytes generalizing number with
  | nil => cases h
  | cons byte bytes ih =>
    unfold readSleb at h
    split at h
    · cases h
      exact Nat.lt_succ_self _
    split at h
    · cases h
      exact Nat.lt_succ_self _
    · obtain ⟨⟨found, left⟩, hfound, hsame⟩ := Option.map_eq_some_iff.mp h
      cases hsame
      exact Nat.lt_succ_of_lt (ih hfound)

/-! ## Groups of seven bits -/

theorem low_bits (byte : UInt8) : (byte &&& 127).toNat = byte.toNat % 128 := by
  rw [UInt8.toNat_and]
  exact Nat.and_two_pow_sub_one_eq_mod byte.toNat 7

theorem high_bit_iff (byte : UInt8) : byte &&& 128 = 0 ↔ byte.toNat < 128 := by
  have hall : ∀ value : Fin 256, UInt8.ofNat value.val &&& 128 = 0 ↔ value.val < 128 := by
    decide +kernel
  simpa using hall ⟨byte.toNat, byte.toNat_lt⟩

theorem sign_bit_iff (byte : UInt8) : byte &&& 64 = 0 ↔ byte.toNat % 128 < 64 := by
  have hall : ∀ value : Fin 256, UInt8.ofNat value.val &&& 64 = 0 ↔ value.val % 128 < 64 := by
    decide +kernel
  simpa using hall ⟨byte.toNat, byte.toNat_lt⟩

/-- A group above an accumulated number is added to it. -/
theorem or_shiftLeft_eq_add {low group shift : Nat} (h : low < 2 ^ shift) :
    low ||| group <<< shift = low + 2 ^ shift * group := by
  rw [Nat.or_comm, ← Nat.shiftLeft_add_eq_or_of_lt h, Nat.shiftLeft_eq]
  ring

end Mewtual
