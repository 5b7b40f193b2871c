import Mathlib.Data.Nat.Log
import Mewtual.Kept.Plan

/-!
# Size padding

A plaintext is padded to a bucket before it is sealed, so that the length a forwarder measures is a
step of a ladder of powers of two. The frame is the body, zeros up to the bucket, and the length of
the body in four bytes. A body above the ceiling is left as long as it is.

Main results:

- Theorem {lit}`padding_canonical`: padding and its inverse, and the lengths a frame can have.
-/

namespace Mewtual.Pad

open Kept

def padFooterBytes : Nat := 4

/-- The buckets of a kind of payload: the powers of two from a floor to a ceiling. -/
structure Ladder where
  floor : Nat
  ceiling : Nat
  floor_pow : ∃ k, floor = 2 ^ k
  ceiling_pow : ∃ k, ceiling = 2 ^ k
  floor_le : floor ≤ ceiling

/-- The smallest power of two that is not below a number. -/
def nextPowerOfTwo (n : Nat) : Nat := 2 ^ Nat.clog 2 n

/-- Cut or fill up with zeros. -/
def resize (bytes : Bytes) (target : Nat) : Bytes :=
  bytes.take target ++ List.replicate (target - bytes.length) 0

namespace Ladder

/-- The padded length of a body of {lit}`n` bytes. -/
def paddedLen (ladder : Ladder) (n : Nat) : Nat :=
  if n > ladder.ceiling then n else nextPowerOfTwo (max n ladder.floor)

/-- Pad a body to its rung, with its length in the footer. -/
def pad (ladder : Ladder) (body : Bytes) : Except StorageError Bytes :=
  if body.length ≥ 2 ^ 32 then .error .malformed
  else .ok (resize body (ladder.paddedLen body.length) ++ putU32 (UInt32.ofNat body.length))

/-- Take the body out of a canonical frame. -/
def unpad (ladder : Ladder) (frame : Bytes) : Except StorageError Bytes :=
  if frame.length < padFooterBytes then .error .malformed
  else
    let split := frame.length - padFooterBytes
    let n := beNat (frame.drop split)
    if n > split then .error .malformed
    -- A sender that could pick a larger bucket could signal in the choice.
    else if split ≠ ladder.paddedLen n then .error .malformed
    else if ((frame.take split).drop n).any fun byte => byte ≠ 0 then .error .malformed
    else .ok (frame.take n)

/-! ## Buckets -/

variable {ladder : Ladder} {n : Nat}

theorem paddedLen_of_lt (h : ladder.ceiling < n) : ladder.paddedLen n = n := if_pos h

theorem paddedLen_of_le (h : n ≤ ladder.ceiling) :
    ladder.paddedLen n = nextPowerOfTwo (max n ladder.floor) :=
  if_neg (Nat.not_lt.mpr h)

theorem le_nextPowerOfTwo (n : Nat) : n ≤ nextPowerOfTwo n := Nat.le_pow_clog Nat.one_lt_two n

theorem le_paddedLen (n : Nat) : n ≤ ladder.paddedLen n := by
  rcases Nat.lt_or_ge ladder.ceiling n with h | h
  · rw [paddedLen_of_lt h]
  · rw [paddedLen_of_le h]
    exact (Nat.le_max_left n ladder.floor).trans (le_nextPowerOfTwo _)

theorem floor_le_paddedLen (h : n ≤ ladder.ceiling) : ladder.floor ≤ ladder.paddedLen n := by
  rw [paddedLen_of_le h]
  exact (Nat.le_max_right n ladder.floor).trans (le_nextPowerOfTwo _)

/-- A bucket does not pass the ceiling, which is a power of two itself. -/
theorem paddedLen_le_ceiling (h : n ≤ ladder.ceiling) : ladder.paddedLen n ≤ ladder.ceiling := by
  obtain ⟨k, hk⟩ := ladder.ceiling_pow
  rw [paddedLen_of_le h, hk, nextPowerOfTwo]
  apply Nat.pow_le_pow_right Nat.two_pos
  apply Nat.clog_le_of_le_pow
  rw [← hk]
  exact max_le h ladder.floor_le

theorem paddedLen_le (n : Nat) : ladder.paddedLen n ≤ max n ladder.ceiling := by
  rcases Nat.lt_or_ge ladder.ceiling n with h | h
  · rw [paddedLen_of_lt h]
    exact Nat.le_max_left n ladder.ceiling
  · exact (paddedLen_le_ceiling h).trans (Nat.le_max_right n ladder.ceiling)

theorem paddedLen_mono : Monotone ladder.paddedLen := by
  intro n m hnm
  rcases Nat.lt_or_ge ladder.ceiling m with hm | hm
  · rw [paddedLen_of_lt hm]
    exact (paddedLen_le n).trans (max_le hnm hm.le)
  · rw [paddedLen_of_le hm, paddedLen_of_le (hnm.trans hm)]
    apply Nat.pow_le_pow_right Nat.two_pos
    exact Nat.clog_mono_right 2 (max_le_max_right ladder.floor hnm)

/-- A bucket is padded to itself. -/
theorem paddedLen_idem (n : Nat) : ladder.paddedLen (ladder.paddedLen n) = ladder.paddedLen n := by
  rcases Nat.lt_or_ge ladder.ceiling n with h | h
  · rw [paddedLen_of_lt h, paddedLen_of_lt h]
  · rw [paddedLen_of_le (paddedLen_le_ceiling h), max_eq_left (floor_le_paddedLen h),
      paddedLen_of_le h, nextPowerOfTwo, nextPowerOfTwo, Nat.clog_pow 2 _ Nat.one_lt_two]

/-! ## Frames -/

variable {body frame front footer : Bytes}

theorem resize_paddedLen (body : Bytes) : resize body (ladder.paddedLen body.length) =
    body ++ List.replicate (ladder.paddedLen body.length - body.length) 0 := by
  rw [resize, List.take_of_length_le (le_paddedLen body.length)]

theorem length_resize (body : Bytes) :
    (resize body (ladder.paddedLen body.length)).length = ladder.paddedLen body.length := by
  rw [resize_paddedLen, List.length_append, List.length_replicate]
  exact Nat.add_sub_cancel' (le_paddedLen body.length)

theorem pad_eq_ok : ladder.pad body = .ok frame ↔ body.length < 2 ^ 32 ∧
    frame = resize body (ladder.paddedLen body.length) ++ putU32 (UInt32.ofNat body.length) := by
  rw [pad, guard_eq_ok, Except.ok.injEq, Nat.not_le, eq_comm (a := frame)]

/-- A footer is accepted behind the resized body that it measures, and behind nothing else. -/
theorem unpad_append (hfooter : footer.length = padFooterBytes) :
    ladder.unpad (front ++ footer) = .ok body ↔
      front = resize body (ladder.paddedLen body.length) ∧ beNat footer = body.length := by
  have hsplit : (front ++ footer).length - padFooterBytes = front.length := by
    rw [List.length_append, hfooter, Nat.add_sub_cancel]
  unfold unpad
  rw [if_neg (by rw [List.length_append, hfooter]; omega)]
  simp only [hsplit, List.drop_left, List.take_left]
  rw [guard_eq_ok, guard_eq_ok, guard_eq_ok, Except.ok.injEq]
  constructor
  · rintro ⟨hfits, hbucket, hzero, rfl⟩
    rw [List.take_append_of_le_length (Nat.not_lt.mp hfits)]
    have hlength := List.length_take_of_le (Nat.not_lt.mp hfits)
    have hfill : front.drop (beNat footer) =
        List.replicate (front.length - beNat footer) 0 := by
      refine List.eq_replicate_iff.mpr ⟨List.length_drop, fun byte hmem => ?_⟩
      by_contra hne
      exact hzero (List.any_eq_true.mpr ⟨byte, hmem, decide_eq_true hne⟩)
    rw [resize_paddedLen, hlength, ← not_not.mp hbucket, ← hfill, List.take_append_drop]
    exact ⟨rfl, rfl⟩
  · rintro ⟨rfl, hnumber⟩
    rw [hnumber, length_resize]
    refine ⟨Nat.not_lt.mpr (le_paddedLen body.length), not_not.mpr rfl, ?_, ?_⟩
    · rw [resize_paddedLen, List.drop_left]
      simp
    · rw [resize_paddedLen, List.append_assoc, List.take_left]

theorem unpad_pad (h : ladder.pad body = .ok frame) : ladder.unpad frame = .ok body := by
  obtain ⟨hlen, rfl⟩ := pad_eq_ok.mp h
  refine (unpad_append (length_putU32 _)).mpr ⟨rfl, ?_⟩
  rw [putU32, UInt32.toNat_ofNat_of_lt' hlen, beNat_beBytes hlen]

/-- What is accepted is what padding would have produced. -/
theorem pad_of_unpad (h : ladder.unpad frame = .ok body) : ladder.pad body = .ok frame := by
  have hshort : ¬ frame.length < padFooterBytes := (guard_eq_ok.mp h).1
  obtain ⟨front, footer, rfl, hfooter⟩ :
      ∃ front footer, frame = front ++ footer ∧ footer.length = padFooterBytes := by
    refine ⟨_, _, (List.take_append_drop (frame.length - padFooterBytes) frame).symm, ?_⟩
    rw [List.length_drop]
    omega
  obtain ⟨hfront, hnumber⟩ := (unpad_append hfooter).mp h
  have hbound := beNat_lt footer
  have hbytes := beBytes_beNat footer
  rw [hfooter, hnumber, padFooterBytes] at hbound hbytes
  refine pad_eq_ok.mpr ⟨hbound, ?_⟩
  rw [← hfront, putU32, UInt32.toNat_ofNat_of_lt' hbound, hbytes]

theorem length_of_pad (h : ladder.pad body = .ok frame) :
    frame.length = ladder.paddedLen body.length + padFooterBytes := by
  rw [(pad_eq_ok.mp h).2, List.length_append, length_resize, length_putU32, padFooterBytes]

/-- For every ladder: padding is undone, what is accepted is what padding produces, and the length
of a frame is that of its bucket and the footer. -/
theorem padding_canonical (ladder : Ladder) :
    (∀ body : Bytes, body.length < 2 ^ 32 →
      ∃ frame, ladder.pad body = .ok frame ∧ ladder.unpad frame = .ok body) ∧
    (∀ frame body, ladder.unpad frame = .ok body → ladder.pad body = .ok frame) ∧
    (∀ body frame, ladder.pad body = .ok frame →
      frame.length = ladder.paddedLen body.length + 4) ∧
    Monotone ladder.paddedLen ∧
    (∀ n, n ≤ ladder.paddedLen n ∧ ladder.paddedLen n ≤ max n ladder.ceiling ∧
      ladder.paddedLen (ladder.paddedLen n) = ladder.paddedLen n ∧
      (n ≤ ladder.ceiling → ladder.floor ≤ ladder.paddedLen n ∧
        ∃ k, ladder.paddedLen n = 2 ^ k)) ∧
    ∀ left right leftFrame rightFrame : Bytes,
      ladder.paddedLen left.length = ladder.paddedLen right.length →
      ladder.pad left = .ok leftFrame → ladder.pad right = .ok rightFrame →
      leftFrame.length = rightFrame.length := by
  refine ⟨fun body hlen => ?_, fun _ _ => pad_of_unpad, fun _ _ => length_of_pad, paddedLen_mono,
    fun n => ⟨le_paddedLen n, paddedLen_le n, paddedLen_idem n, ?_⟩, ?_⟩
  · obtain ⟨frame, hpad⟩ : ∃ frame, ladder.pad body = .ok frame :=
      ⟨_, pad_eq_ok.mpr ⟨hlen, rfl⟩⟩
    exact ⟨frame, hpad, unpad_pad hpad⟩
  · exact fun h => ⟨floor_le_paddedLen h, _, paddedLen_of_le h⟩
  · intro left right leftFrame rightFrame hsame hleft hright
    rw [length_of_pad hleft, length_of_pad hright, hsame]

/-- One byte under the ladder from four to sixteen. -/
theorem padding_canonical_one_byte :
    let ladder : Ladder := ⟨4, 16, ⟨2, rfl⟩, ⟨4, rfl⟩, by decide⟩
    ladder.pad [7] = .ok [7, 0, 0, 0, 0, 0, 0, 1] ∧
      ladder.unpad [7, 0, 0, 0, 0, 0, 0, 1] = .ok [7] := by
  intro ladder
  have hpad : ladder.pad [7] = .ok [7, 0, 0, 0, 0, 0, 0, 1] := by decide +kernel
  obtain ⟨frame, hframe, hunpad⟩ := (padding_canonical ladder).1 [7] (by decide)
  rw [hpad] at hframe
  cases hframe
  exact ⟨hpad, hunpad⟩

end Ladder

end Mewtual.Pad
