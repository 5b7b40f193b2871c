import Mewtual.Wire.Codec
import Mathlib.Tactic.IntervalCases

/-!
# Texts as bytes

Hexadecimal digits, numbers in radix sixteen, and the first separator of a text. A text is the list
of its UTF-8 bytes.

Main results:

- Theorem {lit}`hexBytes_hex`: the digits of a byte string are read back.
- Theorem {lit}`radix16_hex`: read as one number, they are the big-endian number of the bytes.
- Theorem {lit}`splitOnce_append`: a text is split at its first separator.
-/

namespace Mewtual

/-! ## UTF-8 -/

/-- The UTF-8 bytes of a text. -/
def textBytes (text : String) : Bytes := text.toUTF8.data.toList

theorem fromUTF8_eq_some {bytes : Bytes} {text : String} :
    String.fromUTF8? ⟨bytes.toArray⟩ = some text ↔ bytes = textBytes text := by
  constructor
  · intro h
    unfold String.fromUTF8? at h
    split at h
    · cases h
      simp [textBytes, String.toUTF8, String.fromUTF8]
    · cases h
  · rintro rfl
    have hbytes : (⟨(textBytes text).toArray⟩ : ByteArray) = text.toUTF8 := by
      simp [textBytes]
    have hvalid : text.toUTF8.IsValidUTF8 := text.isValidUTF8
    rw [hbytes, String.fromUTF8?, dif_pos hvalid]
    rfl

theorem length_textBytes (text : String) : (textBytes text).length = text.utf8ByteSize := by
  rw [textBytes, Array.length_toList]
  rfl

/-! ## Digits -/

/-- A lower-case digit. -/
def hexDigit (value : Nat) : UInt8 :=
  if value < 10 then UInt8.ofNat (48 + value) else UInt8.ofNat (87 + value)

/-- The value of a digit in either case. -/
def hexValue (digit : UInt8) : Option Nat :=
  if 48 ≤ digit ∧ digit ≤ 57 then some (digit.toNat - 48)
  else if 97 ≤ digit ∧ digit ≤ 102 then some (digit.toNat - 87)
  else if 65 ≤ digit ∧ digit ≤ 70 then some (digit.toNat - 55)
  else none

/-- A digit that {lit}`hexDigit` writes. -/
def isLowerHex (digit : UInt8) : Bool :=
  (48 ≤ digit && digit ≤ 57) || (97 ≤ digit && digit ≤ 102)

theorem hexValue_hexDigit {value : Nat} (h : value < 16) :
    hexValue (hexDigit value) = some value := by
  interval_cases value <;> rfl

theorem isLowerHex_hexDigit {value : Nat} (h : value < 16) :
    isLowerHex (hexDigit value) = true := by
  interval_cases value <;> rfl

/-! ## Byte strings -/

/-- Two digits for each byte. -/
def hex (bytes : Bytes) : Bytes :=
  bytes.flatMap fun byte => [hexDigit (byte.toNat / 16), hexDigit (byte.toNat % 16)]

/-- One byte for each pair of digits. -/
def hexBytes : Bytes → Option Bytes
  | high :: low :: rest =>
    match hexValue high, hexValue low with
    | some high, some low => (hexBytes rest).map fun bytes => UInt8.ofNat (16 * high + low) :: bytes
    | _, _ => none
  | _ => some []

theorem hex_cons (byte : UInt8) (bytes : Bytes) :
    hex (byte :: bytes) = hexDigit (byte.toNat / 16) :: hexDigit (byte.toNat % 16) :: hex bytes :=
  rfl

@[simp] theorem length_hex (bytes : Bytes) : (hex bytes).length = 2 * bytes.length := by
  induction bytes with
  | nil => rfl
  | cons byte bytes ih =>
    rw [hex_cons, List.length_cons, List.length_cons, List.length_cons, ih]
    omega

theorem isLowerHex_of_mem_hex {bytes : Bytes} {digit : UInt8} (h : digit ∈ hex bytes) :
    isLowerHex digit = true := by
  unfold hex at h
  obtain ⟨byte, -, hdigit⟩ := List.mem_flatMap.mp h
  have hbyte : byte.toNat < 256 := byte.toNat_lt
  rcases List.mem_cons.mp hdigit with rfl | hdigit
  · exact isLowerHex_hexDigit (by omega)
  · rw [List.mem_singleton.mp hdigit]
    exact isLowerHex_hexDigit (by omega)

theorem hexBytes_hex (bytes : Bytes) : hexBytes (hex bytes) = some bytes := by
  induction bytes with
  | nil => rfl
  | cons byte bytes ih =>
    have hbyte : byte.toNat < 256 := byte.toNat_lt
    have hsame : UInt8.ofNat (16 * (byte.toNat / 16) + byte.toNat % 16) = byte := by
      rw [Nat.div_add_mod, UInt8.ofNat_toNat]
    rw [hex_cons, hexBytes, hexValue_hexDigit (by omega), hexValue_hexDigit (by omega)]
    dsimp only
    rw [ih, hsame]
    rfl

/-! ## Numbers -/

/-- The digits of a number from the most significant one on. -/
def radix16From : Nat → Bytes → Option Nat
  | value, [] => some value
  | value, digit :: digits =>
    match hexValue digit with
    | none => none
    | some low => radix16From (16 * value + low) digits

/-- {lit}`from_str_radix` at radix sixteen for an unsigned type that is wide enough: a plus sign may
stand before the digits. -/
def radix16 : Bytes → Option Nat
  | [] => none
  | 43 :: [] => none
  | 43 :: digits => radix16From 0 digits
  | digits => radix16From 0 digits

theorem radix16From_hex (value : Nat) (bytes : Bytes) :
    radix16From value (hex bytes) =
      some (bytes.foldl (fun acc byte => acc * 256 + byte.toNat) value) := by
  induction bytes generalizing value with
  | nil => rfl
  | cons byte bytes ih =>
    have hbyte : byte.toNat < 256 := byte.toNat_lt
    have hvalue : 16 * (16 * value + byte.toNat / 16) + byte.toNat % 16 =
        value * 256 + byte.toNat := by omega
    rw [hex_cons, radix16From, hexValue_hexDigit (by omega)]
    dsimp only
    rw [radix16From, hexValue_hexDigit (by omega)]
    dsimp only
    rw [ih, hvalue, List.foldl_cons]

theorem radix16_hex {bytes : Bytes} (hne : bytes ≠ []) :
    radix16 (hex bytes) = some (beNat bytes) := by
  obtain ⟨byte, bytes, rfl⟩ := List.exists_cons_of_ne_nil hne
  have hbyte : byte.toNat < 256 := byte.toNat_lt
  have hplus : hexDigit (byte.toNat / 16) ≠ 43 := by
    intro hsame
    have hlower := isLowerHex_hexDigit (show byte.toNat / 16 < 16 by omega)
    rw [hsame] at hlower
    exact absurd hlower (by decide)
  have hdigits : radix16 (hex (byte :: bytes)) = radix16From 0 (hex (byte :: bytes)) := by
    rw [hex_cons]
    unfold radix16
    split
    · rename_i heq
      cases heq
    · rename_i heq
      exact absurd (List.cons.inj heq).1 hplus
    · rename_i heq
      exact absurd (List.cons.inj heq).1 hplus
    · rfl
  rw [hdigits]
  exact radix16From_hex 0 (byte :: bytes)

/-! ## Separators -/

/-- The texts before and after the first separator. -/
def splitOnce (separator : UInt8) : Bytes → Option (Bytes × Bytes)
  | [] => none
  | byte :: bytes =>
    if byte = separator then some ([], bytes)
    else (splitOnce separator bytes).map fun (before, after) => (byte :: before, after)

theorem splitOnce_append {separator : UInt8} {before : Bytes} (h : separator ∉ before)
    (after : Bytes) :
      splitOnce separator (before ++ separator :: after) = some (before, after) := by
  induction before with
  | nil => simp [splitOnce]
  | cons byte before ih =>
    have hbyte : byte ≠ separator := fun hsame => h (hsame ▸ List.mem_cons_self)
    have hrest : separator ∉ before := fun hmem => h (List.mem_cons_of_mem byte hmem)
    rw [List.cons_append, splitOnce, if_neg hbyte, ih hrest]
    rfl

theorem eq_of_splitOnce {separator : UInt8} {text before after : Bytes}
    (h : splitOnce separator text = some (before, after)) :
    text = before ++ separator :: after := by
  induction text generalizing before with
  | nil => cases h
  | cons byte text ih =>
    unfold splitOnce at h
    split at h
    · rename_i hbyte
      cases h
      rw [hbyte, List.nil_append]
    · obtain ⟨⟨found, rest⟩, hfound, hsame⟩ := Option.map_eq_some_iff.mp h
      cases hsame
      rw [ih hfound, List.cons_append]

/-- The text after a given beginning. -/
def stripStart (start text : Bytes) : Option Bytes :=
  if start.isPrefixOf text then some (text.drop start.length) else none

end Mewtual
