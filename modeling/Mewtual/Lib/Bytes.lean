import Mathlib.Data.BitVec
import Mathlib.Tactic.Ring
import Mewtual.Lib.Except

/-!
# Byte strings, big-endian numbers and sequential readers

A small library for canonical binary formats. It fixes the reading of a byte
string as a big-endian number, and a reader as a state monad over the bytes not
yet consumed. The rules at the end evaluate a reader on the bytes a writer put in
front of an arbitrary remainder, which is the form every round trip is proved in.

Main results:

- Theorem {lit}`beNat_beBytes`: a fixed-width number survives its encoding.
- Theorem {lit}`beBytes_beNat`: a byte string is the encoding of its own number.
- Theorem {lit}`Reads.run_bind`: a field that is read leaves the bytes behind it.
- Theorem {lit}`Reads.append_inj`: what a reader reads back is encoded injectively.
- Theorem {lit}`Reads.times`: reading a counted run of fields.
-/

namespace Mewtual

/-- A byte string. -/
abbrev Bytes := List UInt8

/-! ## Big-endian numbers -/

/-- The {lit}`width` low bytes of a number, most significant byte first. -/
def beBytes : Nat → Nat → Bytes
  | 0, _ => []
  | width + 1, value => beBytes width (value / 256) ++ [UInt8.ofNat value]

/-- The number a byte string denotes, most significant byte first. -/
def beNat (bytes : Bytes) : Nat :=
  bytes.foldl (fun acc byte => acc * 256 + byte.toNat) 0

@[simp] theorem length_beBytes (width value : Nat) :
    (beBytes width value).length = width := by
  induction width generalizing value with
  | zero => rfl
  | succ width ih => simp [beBytes, ih]

@[simp] theorem beNat_nil : beNat [] = 0 := rfl

theorem beNat_concat (bytes : Bytes) (byte : UInt8) :
    beNat (bytes ++ [byte]) = beNat bytes * 256 + byte.toNat := by
  simp [beNat]

/-- A number that fits the width survives the round trip. -/
theorem beNat_beBytes {width value : Nat} (hfits : value < 256 ^ width) :
    beNat (beBytes width value) = value := by
  induction width generalizing value with
  | zero =>
    have hzero : value = 0 := by simpa using hfits
    simp [beBytes, hzero]
  | succ width ih =>
    have hdiv : value / 256 < 256 ^ width := by
      apply Nat.div_lt_of_lt_mul
      rwa [pow_succ, Nat.mul_comm] at hfits
    rw [beBytes, beNat_concat, ih hdiv, UInt8.toNat_ofNat']
    omega

/-- The number of a byte string fits the string's own width. -/
theorem beNat_lt (bytes : Bytes) : beNat bytes < 256 ^ bytes.length := by
  induction bytes using List.reverseRecOn with
  | nil => simp
  | append_singleton bytes byte ih =>
    have hbyte : byte.toNat < 256 := byte.toNat_lt
    rw [beNat_concat, List.length_append, List.length_singleton, pow_succ]
    omega

/-- A byte string is the big-endian encoding of the number it denotes. -/
theorem beBytes_beNat (bytes : Bytes) :
    beBytes bytes.length (beNat bytes) = bytes := by
  induction bytes using List.reverseRecOn with
  | nil => rfl
  | append_singleton bytes byte ih =>
    have hbyte : byte.toNat < 256 := byte.toNat_lt
    have hdiv : (beNat bytes * 256 + byte.toNat) / 256 = beNat bytes := by omega
    have hlow : UInt8.ofNat (beNat bytes * 256 + byte.toNat) = byte := by
      apply UInt8.toNat_inj.mp
      rw [UInt8.toNat_ofNat']
      omega
    rw [List.length_append, List.length_singleton, beBytes, beNat_concat, hdiv, ih, hlow]

-- Unification must never expand the encoding of a wide field byte by byte.
attribute [irreducible] beBytes

/-! ## Sequential readers -/

/-- A reader consumes a front part of the bytes left, or fails. -/
abbrev Reader (ε α : Type) := StateT Bytes (Except ε) α

/-- The reader yields {lit}`value` from {lit}`bytes`, whatever follows them. -/
def Reads {ε α : Type} (reader : Reader ε α) (bytes : Bytes) (value : α) : Prop :=
  ∀ rest, reader.run (bytes ++ rest) = .ok (value, rest)

/-- Read the same field {lit}`count` times. -/
def Reader.times {ε α : Type} (reader : Reader ε α) : Nat → Reader ε (List α)
  | 0 => pure []
  | count + 1 => do
    let head ← reader
    let tail ← Reader.times reader count
    pure (head :: tail)

namespace Reads

variable {ε α β : Type} {reader : Reader ε α}

theorem pure (value : α) : Reads (ε := ε) (Pure.pure value) [] value :=
  fun _ => rfl

/-- A reader followed by a continuation moves on to the bytes behind its field. -/
theorem run_bind {bytes : Bytes} {value : α} (hreads : Reads reader bytes value)
    (next : α → Reader ε β) (rest : Bytes) :
    (reader >>= next).run (bytes ++ rest) = (next value).run rest := by
  rw [StateT.run_bind, hreads rest]
  rfl

/-- Fields one reader reads back cannot be confused: equal bytes carry equal values. -/
theorem append_inj {left right restLeft restRight : Bytes} {first second : α}
    (hleft : Reads reader left first) (hright : Reads reader right second)
    (heq : left ++ restLeft = right ++ restRight) : first = second ∧ restLeft = restRight := by
  have hrun := hleft restLeft
  rw [heq, hright restRight] at hrun
  injection hrun with hpair
  exact ⟨(Prod.mk.inj hpair).1.symm, (Prod.mk.inj hpair).2.symm⟩

/-- A field that every value is read back from is encoded injectively. -/
theorem append_inj_iff {put : α → Bytes} (hreads : ∀ value, Reads reader (put value) value)
    {first second : α} {restLeft restRight : Bytes} :
    put first ++ restLeft = put second ++ restRight ↔ first = second ∧ restLeft = restRight := by
  refine ⟨(hreads first).append_inj (hreads second), ?_⟩
  rintro ⟨rfl, rfl⟩
  rfl

theorem inj_iff {put : α → Bytes} (hreads : ∀ value, Reads reader (put value) value)
    {first second : α} : put first = put second ↔ first = second :=
  ⟨fun heq => ((append_inj_iff hreads).mp (congrArg (· ++ []) heq)).1, congrArg put⟩

/-- A counted run of fields is read back field by field. -/
theorem times {encode : α → Bytes} {values : List α}
    (hreads : ∀ value ∈ values, Reads reader (encode value) value) :
    Reads (Reader.times reader values.length) (values.flatMap encode) values := by
  induction values with
  | nil => exact Reads.pure []
  | cons head tail ih =>
    have hhead : Reads reader (encode head) head := hreads head (by simp)
    have htail := ih fun value hmem => hreads value (by simp [hmem])
    intro rest
    simp only [List.length_cons, Reader.times, List.flatMap_cons, List.append_assoc]
    rw [hhead.run_bind, htail.run_bind]
    rfl

end Reads

/-- The length of a run of fields of one width. -/
theorem length_flatMap_const {α : Type} {encode : α → Bytes} {width : Nat}
    (hwidth : ∀ item, (encode item).length = width) (items : List α) :
    (items.flatMap encode).length = items.length * width := by
  induction items with
  | nil => simp
  | cons item items ih =>
    rw [List.flatMap_cons, List.length_append, hwidth, ih, List.length_cons, Nat.succ_mul]
    omega

/-! ## Partial reading -/

/-- The reader accepts {lit}`bytes` exactly when {lit}`valid` holds, and then yields
{lit}`value` and stops behind them. -/
def ReadsWhen {ε α : Type} (reader : Reader ε α) (bytes : Bytes) (valid : Prop)
    (value : α) : Prop :=
  ∀ rest result, reader.run (bytes ++ rest) = .ok result ↔ valid ∧ result = (value, rest)

namespace ReadsWhen

variable {ε α β : Type} {reader : Reader ε α} {bytes : Bytes} {valid : Prop} {value : α}

theorem of_reads (h : Reads reader bytes value) (hvalid : valid) :
    ReadsWhen reader bytes valid value := by
  intro rest result
  rw [h rest, Except.ok.injEq, eq_comm, and_iff_right hvalid]

theorem reads (h : ReadsWhen reader bytes valid value) (hvalid : valid) :
    Reads reader bytes value :=
  fun rest => (h rest _).mpr ⟨hvalid, rfl⟩

variable {next : α → Reader ε β}

/-- Behind a checked field the reader goes on exactly when the field is valid. -/
theorem run_bind (h : ReadsWhen reader bytes valid value) {rest : Bytes} {result : β × Bytes} :
    (reader >>= next).run (bytes ++ rest) = .ok result ↔
      valid ∧ (next value).run rest = .ok result := by
  rw [StateT.run_bind, bind_eq_ok]
  constructor
  · rintro ⟨pair, hread, hnext⟩
    obtain ⟨hvalid, rfl⟩ := (h rest pair).mp hread
    exact ⟨hvalid, hnext⟩
  · rintro ⟨hvalid, hnext⟩
    exact ⟨_, h.reads hvalid rest, hnext⟩

variable {back : Bytes} {valid' : Prop} {second : β}

theorem bind (h : ReadsWhen reader bytes valid value)
    (hback : ReadsWhen (next value) back valid' second) :
    ReadsWhen (reader >>= next) (bytes ++ back) (valid ∧ valid') second := by
  intro rest result
  rw [List.append_assoc, h.run_bind, hback rest result, and_assoc]

theorem run_pure {rest : Bytes} {result : α × Bytes} :
    (Pure.pure value : Reader ε α).run rest = .ok result ↔ result = (value, rest) :=
  ⟨fun hrun => (Except.ok.inj hrun).symm, fun heq => by rw [heq]; rfl⟩

theorem map (h : ReadsWhen reader bytes valid value) (f : α → β) :
    ReadsWhen (reader >>= fun value => Pure.pure (f value)) bytes valid (f value) := by
  intro rest result
  rw [h.run_bind, run_pure]

end ReadsWhen

end Mewtual
