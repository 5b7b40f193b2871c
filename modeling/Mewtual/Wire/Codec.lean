import Mewtual.Lib.Canonical

/-!
# The canonical wire codec

The append-only encoder and the strict decoder every record of the replication
layer is written with. Integers are fixed-width and big-endian, byte fields carry
a {lit}`u32` length, and a decode that leaves bytes behind is refused.

An encoder is modelled by the bytes it appends, and a decoder by a reader over the
bytes not yet consumed. Fixed byte arrays are kept as bit vectors: the number of an
array is its big-endian reading, so numeric order is the byte-wise order that the
source sorts by.

Main results:

- Theorem {lit}`accepts_getBytes`: a byte field is accepted exactly behind its frame.
-/

namespace Mewtual

/-! ## Errors and integers -/

/-- Errors produced while decoding, or while encoding an over-large field. -/
inductive WireError where
  | unexpectedEof (needed had : Nat)
  | lengthOverflow (len : Nat) (remaining : Nat)
  | trailingBytes (left : Nat)
  | invalidUtf8
  | tooLarge (len : Nat)
  deriving DecidableEq, Repr

/-- A fixed byte array of {lit}`n` bytes, read as one big-endian number. -/
abbrev Fixed (n : Nat) := BitVec (8 * n)

/-- The bytes of a fixed array. -/
def fixedBytes {n : Nat} (value : Fixed n) : Bytes := beBytes n value.toNat

@[simp] theorem length_fixedBytes {n : Nat} (value : Fixed n) :
    (fixedBytes value).length = n := length_beBytes n value.toNat

theorem pow256_eq (n : Nat) : 256 ^ n = 2 ^ (8 * n) := by
  rw [pow_mul]
  norm_num

theorem beNat_fixedBytes {n : Nat} (value : Fixed n) :
    beNat (fixedBytes value) = value.toNat :=
  beNat_beBytes (by rw [pow256_eq]; exact value.isLt)

theorem fixedBytes_injective {n : Nat} {left right : Fixed n}
    (heq : fixedBytes left = fixedBytes right) : left = right := by
  apply BitVec.eq_of_toNat_eq
  rw [← beNat_fixedBytes left, heq, beNat_fixedBytes]

/-! ## The encoder -/

def putU8 (value : UInt8) : Bytes := [value]

def putU16 (value : UInt16) : Bytes := beBytes 2 value.toNat

def putU32 (value : UInt32) : Bytes := beBytes 4 value.toNat

def putU64 (value : UInt64) : Bytes := beBytes 8 value.toNat

def putU128 (value : Fixed 16) : Bytes := fixedBytes value

/-- A byte field as it stands on the wire: its {lit}`u32` length, then its bytes. -/
def framed (field : Bytes) : Bytes := putU32 (UInt32.ofNat field.length) ++ field

/-- Append a length-prefixed byte field. The source calls that
{lit}`expect` this to succeed use {lit}`framed` directly. -/
def putBytes (field : Bytes) : Except WireError Bytes :=
  if field.length < 2 ^ 32 then .ok (framed field) else .error (.tooLarge field.length)

@[simp] theorem length_putU8 (value : UInt8) : (putU8 value).length = 1 := rfl

@[simp] theorem length_putU16 (value : UInt16) : (putU16 value).length = 2 := by
  simp [putU16]

@[simp] theorem length_putU32 (value : UInt32) : (putU32 value).length = 4 := by
  simp [putU32]

@[simp] theorem length_putU64 (value : UInt64) : (putU64 value).length = 8 := by
  simp [putU64]

@[simp] theorem length_putU128 (value : Fixed 16) : (putU128 value).length = 16 := by
  simp [putU128]

@[simp] theorem length_framed (field : Bytes) : (framed field).length = 4 + field.length := by
  simp [framed]

/-! ## The decoder -/

/-- The strict decoder over the bytes not yet consumed. -/
abbrev Decoder (α : Type) := Reader WireError α

/-- Consume exactly {lit}`n` bytes. -/
def take (n : Nat) : Decoder Bytes := fun input =>
  if input.length < n then .error (.unexpectedEof n input.length)
  else .ok (input.take n, input.drop n)

/-- Read a big-endian integer of {lit}`width` bytes. -/
def getInt {α : Type} (width : Nat) (ofNat : Nat → α) : Decoder α := do
  let bytes ← take width
  pure (ofNat (beNat bytes))

def getU8 : Decoder UInt8 := getInt 1 UInt8.ofNat

def getU16 : Decoder UInt16 := getInt 2 UInt16.ofNat

def getU32 : Decoder UInt32 := getInt 4 UInt32.ofNat

def getU64 : Decoder UInt64 := getInt 8 UInt64.ofNat

def getU128 : Decoder (Fixed 16) := getInt 16 (BitVec.ofNat (8 * 16))

/-- Read a length-prefixed byte field; a length past the end is refused. -/
def getBytes : Decoder Bytes := do
  let len ← getU32
  let input ← get
  if input.length < len.toNat then throw (.lengthOverflow len.toNat input.length)
  take len.toNat

/-- A canonical decode must end with no byte left. -/
def finish : Decoder Unit := fun input =>
  if input.length = 0 then .ok ((), input) else .error (.trailingBytes input.length)

/-! ## Reading back what was written -/

variable {input left : Bytes}

@[simp] theorem accepts_take {n : Nat} {field : Bytes} :
    Accepts (take n) input field left ↔ input = field ++ left ∧ field.length = n := by
  change (if input.length < n then _ else _) = _ ↔ _
  rw [guard_eq_ok, Except.ok.injEq, Prod.mk.injEq, Nat.not_lt]
  constructor
  · rintro ⟨hlen, rfl, rfl⟩
    exact ⟨(List.take_append_drop n input).symm, List.length_take_of_le hlen⟩
  · rintro ⟨rfl, rfl⟩
    simp

/-- A fixed-width integer is spelled by its big-endian bytes. -/
theorem accepts_getInt {α : Type} {width : Nat} {ofNat : Nat → α} {toNat : α → Nat}
    (hlt : ∀ value, toNat value < 256 ^ width) (hvalue : ∀ value, ofNat (toNat value) = value)
    (hnumber : ∀ number < 256 ^ width, toNat (ofNat number) = number) {value : α} :
    Accepts (getInt width ofNat) input value left ↔
      input = beBytes width (toNat value) ++ left := by
  simp only [getInt, accepts_bind, accepts_take, accepts_pure]
  constructor
  · rintro ⟨bytes, _, ⟨rfl, rfl⟩, rfl, rfl⟩
    rw [hnumber _ (beNat_lt bytes), beBytes_beNat]
  · rintro rfl
    refine ⟨_, left, ⟨rfl, length_beBytes _ _⟩, ?_, rfl⟩
    rw [beNat_beBytes (hlt value), hvalue]

@[simp] theorem accepts_getU8 {value : UInt8} :
    Accepts getU8 input value left ↔ input = putU8 value ++ left := by
  have hbyte : beBytes 1 value.toNat = putU8 value := by simp [beBytes, putU8]
  rw [← hbyte]
  exact accepts_getInt UInt8.toNat_lt (fun _ => UInt8.ofNat_toNat)
    fun _ h => UInt8.toNat_ofNat_of_lt' h

@[simp] theorem accepts_getU16 {value : UInt16} :
    Accepts getU16 input value left ↔ input = putU16 value ++ left :=
  accepts_getInt UInt16.toNat_lt (fun _ => UInt16.ofNat_toNat)
    fun _ h => UInt16.toNat_ofNat_of_lt' h

@[simp] theorem accepts_getU32 {value : UInt32} :
    Accepts getU32 input value left ↔ input = putU32 value ++ left :=
  accepts_getInt UInt32.toNat_lt (fun _ => UInt32.ofNat_toNat)
    fun _ h => UInt32.toNat_ofNat_of_lt' h

@[simp] theorem accepts_getU64 {value : UInt64} :
    Accepts getU64 input value left ↔ input = putU64 value ++ left :=
  accepts_getInt UInt64.toNat_lt (fun _ => UInt64.ofNat_toNat)
    fun _ h => UInt64.toNat_ofNat_of_lt' h

@[simp] theorem accepts_getU128 {value : Fixed 16} :
    Accepts getU128 input value left ↔ input = putU128 value ++ left :=
  accepts_getInt BitVec.isLt (fun _ => by simp) fun _ h => Nat.mod_eq_of_lt h

/-- A byte field is accepted exactly behind its frame. -/
@[simp] theorem accepts_getBytes {field : Bytes} :
    Accepts getBytes input field left ↔ input = framed field ++ left ∧ field.length < 2 ^ 32 := by
  simp only [getBytes, accepts_bind, accepts_getU32, accepts_get, accepts_ite, not_accepts_throw,
    accepts_take]
  constructor
  · rintro ⟨len, _, rfl, _, _, ⟨rfl, rfl⟩, ⟨-, -, -, h, -⟩ | ⟨-, rfl, hlen⟩⟩
    · cases h
    · rw [framed, hlen, UInt32.ofNat_toNat, List.append_assoc]
      exact ⟨rfl, len.toNat_lt⟩
  · rintro ⟨rfl, hlen⟩
    have hnat := UInt32.toNat_ofNat_of_lt' hlen
    refine ⟨_, field ++ left, by rw [framed, List.append_assoc], _, _, ⟨rfl, rfl⟩, .inr ?_⟩
    rw [hnat]
    exact ⟨by simp, rfl, rfl⟩

theorem getU8_putU8 (value : UInt8) : Reads getU8 (putU8 value) value :=
  fun _ => accepts_getU8.mpr rfl

theorem getU16_putU16 (value : UInt16) : Reads getU16 (putU16 value) value :=
  fun _ => accepts_getU16.mpr rfl

theorem getU32_putU32 (value : UInt32) : Reads getU32 (putU32 value) value :=
  fun _ => accepts_getU32.mpr rfl

theorem getU64_putU64 (value : UInt64) : Reads getU64 (putU64 value) value :=
  fun _ => accepts_getU64.mpr rfl

theorem getU128_putU128 (value : Fixed 16) : Reads getU128 (putU128 value) value :=
  fun _ => accepts_getU128.mpr rfl

/-- A byte field is read back whatever follows it. -/
theorem getBytes_framed {field : Bytes} (hlen : field.length < 2 ^ 32) :
    Reads getBytes (framed field) field :=
  fun _ => accepts_getBytes.mpr ⟨rfl, hlen⟩

theorem accepts_finish {result : Unit} :
    Accepts finish input result left ↔ input = [] ∧ left = [] := by
  change (if input.length = 0 then Except.ok ((), input) else _) = _ ↔ _
  cases input <;> simp [eq_comm]

/-! ## Fields in front of others -/

variable {rest : Bytes}

@[simp] theorem putU8_append_inj {first second : UInt8} :
    putU8 first ++ rest = putU8 second ++ left ↔ first = second ∧ rest = left :=
  Reads.append_inj_iff getU8_putU8

@[simp] theorem putU16_append_inj {first second : UInt16} :
    putU16 first ++ rest = putU16 second ++ left ↔ first = second ∧ rest = left :=
  Reads.append_inj_iff getU16_putU16

@[simp] theorem putU64_append_inj {first second : UInt64} :
    putU64 first ++ rest = putU64 second ++ left ↔ first = second ∧ rest = left :=
  Reads.append_inj_iff getU64_putU64

@[simp] theorem putU128_append_inj {first second : Fixed 16} :
    putU128 first ++ rest = putU128 second ++ left ↔ first = second ∧ rest = left :=
  Reads.append_inj_iff getU128_putU128

theorem framed_append_inj {first second : Bytes} (hfirst : first.length < 2 ^ 32)
    (hsecond : second.length < 2 ^ 32) :
    framed first ++ rest = framed second ++ left ↔ first = second ∧ rest = left := by
  refine ⟨(getBytes_framed hfirst).append_inj (getBytes_framed hsecond), ?_⟩
  rintro ⟨rfl, rfl⟩
  rfl

theorem framed_inj {first second : Bytes} (hfirst : first.length < 2 ^ 32)
    (hsecond : second.length < 2 ^ 32) : framed first = framed second ↔ first = second := by
  refine ⟨fun heq => ?_, congrArg framed⟩
  exact ((framed_append_inj hfirst hsecond).mp (congrArg (· ++ []) heq)).1

end Mewtual
