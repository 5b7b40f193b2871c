import Mewtual.Wire.Codec

/-!
# Byte fields of a fixed width

Main results:

- Theorem {lit}`accepts_getArray`: a byte field of fixed width is spelled by its array.
-/

namespace Mewtual

/-- The array a byte string of its width holds. -/
theorem fixedBytes_ofNat {n : Nat} {bytes : Bytes} (h : bytes.length = n) :
    fixedBytes (BitVec.ofNat (8 * n) (beNat bytes)) = bytes := by
  have hlt : beNat bytes < 2 ^ (8 * n) := by
    rw [← pow256_eq, ← h]
    exact beNat_lt bytes
  rw [fixedBytes, BitVec.toNat_ofNat, Nat.mod_eq_of_lt hlt]
  subst h
  exact beBytes_beNat bytes

/-- A byte field that must be exactly {lit}`n` bytes long; {lit}`bad` is the error of any other. -/
def getArray {ε : Type} (bad : ε) (n : Nat) : Reader ε (Fixed n) := do
  let bytes ← Reader.mapError (fun _ => bad) getBytes
  if bytes.length ≠ n then throw bad
  pure (BitVec.ofNat (8 * n) (beNat bytes))

@[simp] theorem accepts_getArray {ε : Type} {bad : ε} {n : Nat} {value : Fixed n}
    {input left : Bytes} : Accepts (getArray bad n) input value left ↔
      input = framed (fixedBytes value) ++ left ∧ n < 2 ^ 32 := by
  simp only [getArray, accepts_bind, accepts_mapError, accepts_getBytes, accepts_ite,
    not_accepts_throw, accepts_pure]
  constructor
  · rintro ⟨bytes, _, ⟨rfl, hlen⟩, ⟨-, -, -, h, -⟩ | ⟨hn, rfl, rfl⟩⟩
    · cases h
    · rw [fixedBytes_ofNat (not_not.mp hn)]
      exact ⟨rfl, not_not.mp hn ▸ hlen⟩
  · rintro ⟨rfl, hn⟩
    refine ⟨fixedBytes value, left, ⟨rfl, by simpa using hn⟩, .inr ⟨by simp, ?_, rfl⟩⟩
    rw [beNat_fixedBytes]
    simp

theorem getArray_framed {ε : Type} (bad : ε) {n : Nat} (hn : n < 2 ^ 32) (value : Fixed n) :
    Reads (getArray bad n) (framed (fixedBytes value)) value :=
  fun _ => accepts_getArray.mpr ⟨rfl, hn⟩

end Mewtual
