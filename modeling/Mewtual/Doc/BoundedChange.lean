import Mewtual.Epoch.Primitives
import Mewtual.Lib.Leb128
import Mewtual.Lib.Machine
import Mathlib.Algebra.BigOperators.Group.List.Basic
import Mathlib.Algebra.Group.Action.Defs
import Mathlib.Tactic.IntervalCases
import Mathlib.Tactic.Linarith

/-!
# Preflight of a raw change

A raw change chunk can declare millions of cells in a few bytes. The scanner here counts what the
run-length columns of a chunk would expand to, without expanding them, and refuses a chunk beyond
its limits before the parser of the document library sees it.

The full expansion of a column is given beside the scanner: the list of its cells, read with the
mathematical value of every number.

Main results:

- Theorems {lit}`unsigned_reads` and {lit}`signed_reads`: a number that is read is the one that was
  written.
- Theorem {lit}`scanRuns_tallies`: the counters of a column are those of its expansion.
- Theorem {lit}`checkLimits_sound`: an accepted chunk expands within its limits.
-/

namespace Mewtual
namespace BoundedChange

/-! ## Input -/

/-- A position in a slice: the bytes before it and those after it. -/
structure Input where
  offset : Nat
  rest : Bytes
deriving DecidableEq

abbrev Scanner (α : Type) := StateT Input (Except ReplError) α

def Input.new (bytes : Bytes) : Input := ⟨0, bytes⟩

def Input.done (input : Input) : Bool := input.rest.isEmpty

/-- The next bytes; a length past the end is malformed. -/
def take (len : UInt64) : Scanner Bytes := fun input =>
  if input.offset + len.toNat ≥ 2 ^ 64 then .error .epochBound
  else if input.rest.length < len.toNat then .error .malformed
  else .ok (input.rest.take len.toNat, ⟨input.offset + len.toNat, input.rest.drop len.toNat⟩)

def takeByte : Scanner UInt8 := do
  let bytes ← take 1
  pure (bytes.headD 0)

/-- The turns of the loop from the {lit}`i`-th byte on. -/
def unsignedFrom : Nat → Nat → UInt64 → Scanner UInt64
  | 0, _, _ => throw .malformed
  | left + 1, i, value => do
    let byte ← takeByte
    if i = 9 ∧ byte > 1 then throw .malformed
    let value := value ||| ((byte &&& 127).toUInt64 <<< UInt64.ofNat (i * 7))
    if byte &&& 128 = 0 then pure value else unsignedFrom left (i + 1) value

/-- An unsigned LEB128 of at most ten bytes. -/
def unsigned : Scanner UInt64 := unsignedFrom 10 0 0

/-- The signed LEB128 loop, with the shift and the value so far. -/
def signedFrom : Nat → Nat → UInt64 → Scanner Int64
  | 0, _, _ => throw .malformed
  | left + 1, i, value => do
    let byte ← takeByte
    if i = 9 ∧ byte ≠ 0 ∧ byte ≠ 127 then throw .malformed
    let value := value ||| ((byte &&& 127).toUInt64 <<< UInt64.ofNat (i * 7))
    if byte &&& 128 = 0 then
      let bits := (i + 1) * 7
      if bits < 64 ∧ byte &&& 64 ≠ 0 then
        pure (value ||| (18446744073709551615 <<< UInt64.ofNat bits)).toInt64
      else pure value.toInt64
    else signedFrom left (i + 1) value

/-- A signed LEB128 of at most ten bytes. -/
def signed : Scanner Int64 := signedFrom 10 0 0

/-- A field that its length precedes. -/
def sized : Scanner Bytes := do
  let len ← unsigned
  take len

/-! ## Counters -/

/-- What the scan counts. -/
inductive Counter where
  | cells | strings | predecessors | valueBytes | actions
deriving DecidableEq

/-- One number for each counter. -/
abbrev Totals := Counter → Nat

/-- Add to a counter, within its limit. -/
def charge (limits : Totals) (counter : Counter) (value : Nat) (totals : Totals) :
    Except ReplError Totals :=
  match checkedAddNat (totals counter) value with
  | none => .error .epochBound
  | some sum =>
    if sum > limits counter then .error .epochBound
    else .ok (Function.update totals counter sum)

/-- {lit}`u64::checked_mul`, reported as a bound violation. -/
def checkedMul (left right : Nat) : Except ReplError Nat :=
  if left * right < 2 ^ 64 then .ok (left * right) else .error .epochBound

/-! ## Columns -/

/-- The columns that a change may have. -/
def specs : List UInt64 :=
  [0x01, 0x02, 0x11, 0x13, 0x15, 0x34, 0x42, 0x56, 0x57, 0x70, 0x71, 0x73, 0x94, 0xa5]

/-- The low three bits of a column name its type. -/
def columnType (spec : UInt64) : Nat := (spec &&& 7).toNat

/-- Charges a value for all its repetitions, in the columns where it counts. -/
def chargeRepeated (counts : Prop) [Decidable counts] (limits : Totals) (counter : Counter)
    (value repeats : Nat) (totals : Totals) : Except ReplError Totals :=
  if counts then do
    let charged ← checkedMul value repeats
    charge limits counter charged totals
  else .ok totals

/-- A number in the predecessor column counts predecessors, one in a value header the bytes of its
value. -/
def chargeNumber (limits : Totals) (spec value : UInt64) (repeats : Nat) (totals : Totals) :
    Except ReplError Totals := do
  let totals ← chargeRepeated (spec = 0x70) limits .predecessors value.toNat repeats totals
  chargeRepeated (columnType spec = 6) limits .valueBytes (value >>> 4).toNat repeats totals

/-- Charge a text once for each time it is repeated. -/
def chargeText (limits : Totals) (text : Bytes) (repeats : Nat) (totals : Totals) :
    Except ReplError Totals :=
  chargeRepeated True limits .strings text.length repeats totals

/-- One literal of a column, charged for all its repetitions. -/
def scanItem (limits : Totals) (spec : UInt64) (repeats : Nat) (totals : Totals) (input : Input) :
    Except ReplError (Totals × Input) :=
  match columnType spec with
  | 0 | 1 | 2 | 6 => do
    let (value, input) ← unsigned.run input
    let totals ← chargeNumber limits spec value repeats totals
    pure (totals, input)
  | 3 => do
    let (_, input) ← signed.run input
    pure (totals, input)
  | 5 => do
    let (text, input) ← sized.run input
    let totals ← chargeText limits text repeats totals
    pure (totals, input)
  | _ => .error .malformed

/-- The literals of one run. The second result counts the literals looked at, also when one of them
is refused. -/
def scanLiterals (limits : Totals) (spec : UInt64) (repeats : Nat) :
    Nat → Totals → Input → Nat → Except ReplError (Totals × Input) × Nat
  | 0, totals, input, seen => (.ok (totals, input), seen)
  | left + 1, totals, input, seen =>
    match scanItem limits spec repeats totals input with
    | .error error => (.error error, seen + 1)
    | .ok (totals, input) => scanLiterals limits spec repeats left totals input (seen + 1)

/-- The head of a run: its signed length and how many cells it stands for. -/
def runHead : Scanner (Int64 × Nat) := do
  let run ← signed
  if run = 0 then do
    let count ← unsigned
    pure (run, count.toNat)
  else if run = Int64.minValue then throw .epochBound
  else pure (run, run.toInt.natAbs)

/-- The cells of a run are charged before its literals are looked at. -/
def chargeRun (limits : Totals) (spec : UInt64) (count : Nat) (totals : Totals) :
    Except ReplError Totals := do
  let totals ← charge limits .cells count totals
  if spec = 0x42 then charge limits .actions count totals else pure totals

/-- One run of a column. A column of flags has only lengths, of runs that take turns. -/
def scanRun (limits : Totals) (spec : UInt64) (totals : Totals) (input : Input) (seen : Nat) :
    Except ReplError (Totals × Input) × Nat :=
  if columnType spec = 4 then
    (do
      let (count, input) ← unsigned.run input
      let totals ← charge limits .cells count.toNat totals
      pure (totals, input), seen)
  else
    match runHead.run input with
    | .error error => (.error error, seen)
    | .ok ((run, count), input) =>
      match chargeRun limits spec count totals with
      | .error error => (.error error, seen)
      | .ok totals =>
        if run = 0 then (.ok (totals, input), seen)
        else
          let literals := if run < 0 then count else 1
          let repeats := if run < 0 then 1 else count
          scanLiterals limits spec repeats literals totals input seen

/-- The loop over the runs of a column. Every turn takes a byte, so that as many turns as there are
bytes are enough. -/
def scanRuns (limits : Totals) (spec : UInt64) :
    Nat → Totals → Input → Nat → Except ReplError Totals × Nat
  | 0, totals, input, seen =>
    (if input.done then .ok totals else .error .malformed, seen)
  | turns + 1, totals, input, seen =>
    if input.done then (.ok totals, seen)
    else
      match scanRun limits spec totals input seen with
      | (.error error, seen) => (.error error, seen)
      | (.ok (totals, input), seen) => scanRuns limits spec turns totals input seen

/-- Scan one column by its type. -/
def scanColumn (limits : Totals) (spec : UInt64) (data : Bytes) (totals : Totals) :
    Except ReplError Totals × Nat :=
  scanRuns limits spec data.length totals (.new data) 0

/-- The columns in their order. Raw value bytes are not run-length coded. -/
def scanColumns (limits : Totals) :
    List (UInt64 × UInt64) → Totals → Input → Except ReplError Totals
  | [], totals, _ => .ok totals
  | (spec, len) :: columns, totals, input => do
    let (data, input) ← (take len).run input
    if columnType spec = 7 then scanColumns limits columns totals input
    else do
      let totals ← (scanColumn limits spec data totals).1
      scanColumns limits columns totals input

/-! ## Chunks -/

/-- The other actors of a change, of 32 bytes each. -/
def readActors : Nat → Scanner Unit
  | 0 => pure ()
  | left + 1 => do
    let actor ← sized
    if actor.length ≠ 32 then throw .epochAuthority
    readActors left

/-- The column headers: known specifications in ascending order, with their lengths. -/
def readSpecs : Nat → Option UInt64 → Scanner (List (UInt64 × UInt64))
  | 0, _ => pure []
  | left + 1, previous => do
    let spec ← unsigned
    if spec ∉ specs ∨ previous.any fun old => old ≥ spec then throw .malformed
    let len ← unsigned
    let more ← readSpecs left (some spec)
    pure ((spec, len) :: more)

/-- The head of a change, up to the columns and their lengths. -/
def readHeader : Scanner (List (UInt64 × UInt64)) := do
  let deps ← unsigned
  if deps > 20001 then throw .epochBound
  let _ ← take (deps * 32)
  let actor ← sized
  if actor.length ≠ 32 then throw .epochAuthority
  let _ ← unsigned
  let _ ← unsigned
  let _ ← signed
  let _ ← sized
  let actors ← unsigned
  if actors > 20001 then throw .epochBound
  readActors actors.toNat
  let count ← unsigned
  if count.toNat > specs.length then throw .epochBound
  readSpecs count.toNat none

/-- The column headers of a chunk and the input after them. -/
def chunkHeader (bytes : Bytes) : Except ReplError (List (UInt64 × UInt64) × Input) :=
  if bytes.length < 10 ∨ bytes.take 4 ≠ [0x85, 0x6f, 0x4a, 0x83] ∨ bytes.getD 8 0 ≠ 1 then
    .error .malformed
  else do
    let (payload, frame) ← sized.run (.new (bytes.drop 9))
    if frame.done = false then .error .malformed else readHeader.run (.new payload)

/-- The limit on declared value bytes is the length of the chunk. -/
def limitsOf (bytes : Bytes) (maxActions maxCells maxPredecessors maxStrings : UInt64) : Totals
  | .actions => maxActions.toNat
  | .cells => maxCells.toNat
  | .predecessors => maxPredecessors.toNat
  | .strings => maxStrings.toNat
  | .valueBytes => bytes.length

/-- Check a change chunk against the limits before it is expanded. -/
def checkLimits (bytes : Bytes) (maxActions maxCells maxPredecessors maxStrings : UInt64) :
    Except ReplError Unit := do
  let (columns, input) ← chunkHeader bytes
  let totals ← scanColumns (limitsOf bytes maxActions maxCells maxPredecessors maxStrings) columns
    (fun _ => 0) input
  if totals .actions = 0 then .error .malformed else .ok ()

/-- The limits for a change that is admitted. -/
def check (bytes : Bytes) (maxActions : UInt64) : Except ReplError Unit :=
  checkLimits bytes maxActions 1048576 262144 16777216

/-! ## What the readers return -/

section Readers

variable {input after : Input}

theorem take_reads {len : UInt64} {bytes : Bytes} (h : (take len).run input = .ok (bytes, after)) :
    bytes.length = len.toNat ∧ input.rest = bytes ++ after.rest := by
  unfold StateT.run take at h
  obtain ⟨-, h⟩ := guard_eq_ok.mp h
  obtain ⟨hlength, h⟩ := guard_eq_ok.mp h
  cases h
  refine ⟨?_, (List.take_append_drop _ _).symm⟩
  rw [List.length_take]
  omega

theorem takeByte_reads {byte : UInt8} (h : takeByte.run input = .ok (byte, after)) :
    input.rest = byte :: after.rest := by
  unfold takeByte at h
  rw [StateT.run_bind] at h
  obtain ⟨⟨bytes, found⟩, htake, h⟩ := bind_eq_ok.mp h
  obtain ⟨hlength, hrest⟩ := take_reads htake
  cases h
  obtain ⟨byte, rfl⟩ := List.length_eq_one_iff.mp hlength
  exact hrest

variable {i : Nat} {value : UInt64}

/-- One more group of seven bits. -/
theorem toNat_or_group (byte : UInt8) (hi : i ≤ 9)
    (hvalue : value.toNat < 2 ^ (7 * i)) (hlast : i = 9 → byte.toNat % 128 ≤ 1) :
    (value ||| ((byte &&& 127).toUInt64 <<< UInt64.ofNat (i * 7))).toNat =
      value.toNat + 2 ^ (7 * i) * (byte.toNat % 128) := by
  have hbits : (UInt64.ofNat (i * 7)).toNat = i * 7 :=
    UInt64.toNat_ofNat_of_lt' (show i * 7 < 2 ^ 64 by omega)
  have hfits : 2 ^ (7 * i) * (byte.toNat % 128) < 2 ^ 64 := by
    have hgroup : byte.toNat % 128 < 128 := Nat.mod_lt _ (by decide)
    interval_cases i <;> omega
  have hgroup : ((byte &&& 127).toUInt64 <<< UInt64.ofNat (i * 7)).toNat =
      (byte.toNat % 128) <<< (7 * i) := by
    rw [UInt64.toNat_shiftLeft, hbits, UInt8.toNat_toUInt64, low_bits,
      Nat.mod_eq_of_lt (show i * 7 < 64 by omega), Nat.mul_comm i 7, Nat.shiftLeft_eq,
      Nat.mul_comm (byte.toNat % 128)]
    exact Nat.mod_eq_of_lt hfits
  rw [UInt64.toNat_or, hgroup, or_shiftLeft_eq_add hvalue]

/-- The groups that are read stay below the next power. -/
theorem group_lt (byte : UInt8) (hvalue : value.toNat < 2 ^ (7 * i)) :
    value.toNat + 2 ^ (7 * i) * (byte.toNat % 128) < 2 ^ (7 * (i + 1)) := by
  have hle : 2 ^ (7 * i) * (byte.toNat % 128) ≤ 2 ^ (7 * i) * 127 :=
    Nat.mul_le_mul_left _ (by omega)
  rw [Nat.mul_add, Nat.pow_add]
  omega

theorem unsignedFrom_reads {left : Nat} {result : UInt64} (hturn : left + i = 10)
    (hvalue : value.toNat < 2 ^ (7 * i))
    (h : (unsignedFrom left i value).run input = .ok (result, after)) :
    ∃ number, readUleb input.rest = some (number, after.rest) ∧
      result.toNat = value.toNat + 2 ^ (7 * i) * number := by
  induction left generalizing i value input with
  | zero => cases h
  | succ left ih =>
    unfold unsignedFrom at h
    rw [StateT.run_bind] at h
    obtain ⟨⟨byte, next⟩, hbyte, h⟩ := bind_eq_ok.mp h
    have hrest := takeByte_reads hbyte
    dsimp only at h
    split at h
    · cases h
    rename_i hsmall
    have hlast : i = 9 → byte.toNat ≤ 1 := by
      intro hnine
      by_contra hlarge
      exact hsmall ⟨hnine, UInt8.lt_iff_toNat_lt.mpr (Nat.not_le.mp hlarge)⟩
    have hmod : i = 9 → byte.toNat % 128 ≤ 1 := fun hnine =>
      Nat.le_trans (Nat.mod_le _ _) (hlast hnine)
    have hgroup := toNat_or_group byte (by omega) hvalue hmod
    rw [hrest, readUleb]
    split at h
    · rename_i hend
      rw [high_bit_iff] at hend
      cases h
      refine ⟨byte.toNat, if_pos hend, ?_⟩
      rw [hgroup, Nat.mod_eq_of_lt hend]
    · rename_i hmore
      rw [high_bit_iff] at hmore
      have hbyte := byte.toNat_lt
      -- The tenth byte never goes on.
      have hbefore : i ≠ 9 := fun hnine => hmore (Nat.lt_of_le_of_lt (hlast hnine) (by decide))
      have hsplit : 2 ^ (7 * (i + 1)) = 2 ^ (7 * i) * 128 := by
        rw [Nat.mul_add, Nat.pow_add]
      have hmodEq : byte.toNat % 128 = byte.toNat - 128 := by omega
      have hnext := group_lt byte hvalue
      obtain ⟨number, hnumber, hresult⟩ := ih (by omega) (by rw [hgroup]; exact hnext) h
      refine ⟨byte.toNat - 128 + 128 * number, ?_, ?_⟩
      · rw [if_neg hmore, hnumber]
        rfl
      · rw [hresult, hgroup, hsplit, hmodEq]
        ring

/-- An unsigned number that is read has its mathematical value. -/
theorem unsigned_reads (h : unsigned.run input = .ok (value, after)) :
    readUleb input.rest = some (value.toNat, after.rest) := by
  obtain ⟨number, hnumber, hvalue⟩ := unsignedFrom_reads rfl (by decide) h
  rw [hnumber, hvalue]
  simp

/-- {lit}`value as i64`. -/
theorem toInt_toInt64 (value : UInt64) :
    value.toInt64.toInt =
      if value.toNat < 2 ^ 63 then (value.toNat : Int) else value.toNat - 2 ^ 64 := by
  change value.toBitVec.toInt = _
  rw [BitVec.toInt_eq_toNat_cond, show value.toBitVec.toNat = value.toNat from rfl]
  split <;> split <;> omega

/-- Setting all bits above a number. -/
theorem toNat_sign_extend {bits : Nat} (hbits : bits < 64) (hvalue : value.toNat < 2 ^ bits) :
    (value ||| (18446744073709551615 <<< UInt64.ofNat bits)).toNat =
      value.toNat + (2 ^ 64 - 2 ^ bits) := by
  have hshift : (UInt64.ofNat bits).toNat = bits :=
    UInt64.toNat_ofNat_of_lt' (show bits < 2 ^ 64 by omega)
  have hones : (18446744073709551615 <<< UInt64.ofNat bits : UInt64).toNat =
      (2 ^ (64 - bits) - 1) <<< bits := by
    rw [UInt64.toNat_shiftLeft, hshift, Nat.mod_eq_of_lt hbits, Nat.shiftLeft_eq, Nat.shiftLeft_eq]
    change (2 ^ 64 - 1) * 2 ^ bits % 2 ^ 64 = _
    interval_cases bits <;> rfl
  rw [UInt64.toNat_or, hones, or_shiftLeft_eq_add hvalue, Nat.mul_sub, ← Nat.pow_add,
    Nat.add_sub_cancel' (Nat.le_of_lt hbits), Nat.mul_one]

/-- The last group of a number that takes at most nine bytes. -/
theorem signed_last {byte : UInt8} (hi : i < 9)
    (hvalue : value.toNat < 2 ^ (7 * i)) (hend : byte.toNat < 128) (rest : Bytes) :
    let accumulated := value ||| ((byte &&& 127).toUInt64 <<< UInt64.ofNat (i * 7))
    let result : Int64 :=
      if (i + 1) * 7 < 64 ∧ byte &&& 64 ≠ 0 then
        (accumulated ||| (18446744073709551615 <<< UInt64.ofNat ((i + 1) * 7))).toInt64
      else accumulated.toInt64
    ∃ number, readSleb (byte :: rest) = some (number, rest) ∧
      result.toInt = value.toNat + 2 ^ (7 * i) * number := by
  intro accumulated result
  have hgroup : accumulated.toNat = value.toNat + 2 ^ (7 * i) * byte.toNat := by
    have h := toNat_or_group byte (by omega) hvalue (fun hnine => by omega)
    rwa [Nat.mod_eq_of_lt hend] at h
  have hsplit : 2 ^ ((i + 1) * 7) = 2 ^ (7 * i) * 128 := by
    rw [Nat.mul_comm, Nat.mul_add, Nat.pow_add]
  have hpow : 2 ^ (7 * i) ≤ 2 ^ 56 := Nat.pow_le_pow_right (by decide) (by omega)
  have hsigned : byte &&& 64 = 0 ↔ byte.toNat < 64 := by
    rw [sign_bit_iff, Nat.mod_eq_of_lt hend]
  by_cases hsmall : byte.toNat < 64
  · refine ⟨byte.toNat, by rw [readSleb, if_pos hsmall], ?_⟩
    have hle : 2 ^ (7 * i) * byte.toNat ≤ 2 ^ (7 * i) * 63 := Nat.mul_le_mul_left _ (by omega)
    have hresult : result = accumulated.toInt64 :=
      if_neg fun hboth => hboth.2 (hsigned.mpr hsmall)
    rw [hresult, toInt_toInt64, if_pos (by omega), hgroup]
    push_cast
    ring
  · refine ⟨byte.toNat - 128, by rw [readSleb, if_neg hsmall, if_pos hend], ?_⟩
    have hle : 2 ^ (7 * i) * byte.toNat ≤ 2 ^ (7 * i) * 127 := Nat.mul_le_mul_left _ (by omega)
    have hresult : result =
        (accumulated ||| (18446744073709551615 <<< UInt64.ofNat ((i + 1) * 7))).toInt64 :=
      if_pos ⟨by omega, fun hzero => hsmall (hsigned.mp hzero)⟩
    have hfits : accumulated.toNat < 2 ^ ((i + 1) * 7) := by
      rw [hgroup, hsplit]
      omega
    have hextended := toNat_sign_extend (by omega) hfits
    rw [hresult, toInt_toInt64, if_neg (by omega), hextended, hgroup, hsplit]
    have hbound : 2 ^ 64 - 2 ^ (7 * i) * 128 + 2 ^ (7 * i) * 128 = 2 ^ 64 := by omega
    have hcast : ((2 ^ 64 - 2 ^ (7 * i) * 128 : Nat) : Int) + 2 ^ (7 * i) * 128 = 2 ^ 64 := by
      exact_mod_cast hbound
    rw [Nat.cast_add, Nat.cast_add, Nat.cast_mul]
    push_cast at hcast ⊢
    linarith

theorem signedFrom_reads {left : Nat} {result : Int64} (hturn : left + i = 10)
    (hvalue : value.toNat < 2 ^ (7 * i))
    (h : (signedFrom left i value).run input = .ok (result, after)) :
    ∃ number, readSleb input.rest = some (number, after.rest) ∧
      result.toInt = value.toNat + 2 ^ (7 * i) * number := by
  induction left generalizing i value input with
  | zero => cases h
  | succ left ih =>
    unfold signedFrom at h
    rw [StateT.run_bind] at h
    obtain ⟨⟨byte, next⟩, hbyte, h⟩ := bind_eq_ok.mp h
    have hrest := takeByte_reads hbyte
    dsimp only at h
    split at h
    · cases h
    rename_i hsmall
    have hlast : i = 9 → byte = 0 ∨ byte = 127 := by
      intro hnine
      by_contra hother
      rw [not_or] at hother
      exact hsmall ⟨hnine, hother⟩
    rw [hrest]
    split at h
    · rename_i hend
      rw [high_bit_iff] at hend
      by_cases hnine : i = 9
      · -- The tenth byte holds the sign bit and six copies of it.
        subst hnine
        have hless : value.toNat < 2 ^ 63 := hvalue
        rcases hlast rfl with rfl | rfl
        · cases h
          refine ⟨0, by rw [readSleb]; rfl, ?_⟩
          have hzero : (value ||| ((0 &&& 127 : UInt8).toUInt64 <<< UInt64.ofNat (9 * 7))).toNat =
              value.toNat := toNat_or_group 0 (Nat.le_refl 9) hvalue (fun _ => by decide)
          rw [toInt_toInt64, hzero, if_pos hless]
          simp
        · cases h
          refine ⟨-1, by rw [readSleb]; rfl, ?_⟩
          have hset : (value ||| ((127 &&& 127 : UInt8).toUInt64 <<< UInt64.ofNat (9 * 7))).toNat =
              value.toNat + 2 ^ 63 := by
            rw [UInt64.toNat_or]
            change value.toNat ||| 1 <<< 63 = _
            rw [or_shiftLeft_eq_add hless, Nat.mul_one]
          rw [toInt_toInt64, hset, if_neg (by omega)]
          push_cast
          ring
      · have hlast := signed_last (by omega) hvalue hend next.rest
        dsimp only at hlast
        split at h <;> rename_i hsign <;> cases h
        · rw [if_pos hsign] at hlast
          exact hlast
        · rw [if_neg hsign] at hlast
          exact hlast
    · rename_i hmore
      rw [high_bit_iff] at hmore
      have hbyte := byte.toNat_lt
      have hbefore : i ≠ 9 := by
        intro hnine
        rcases hlast hnine with rfl | rfl <;> exact hmore (by decide)
      have hgroup := toNat_or_group byte (by omega) hvalue (fun hnine => absurd hnine hbefore)
      have hsplit : 2 ^ (7 * (i + 1)) = 2 ^ (7 * i) * 128 := by
        rw [Nat.mul_add, Nat.pow_add]
      have hmodEq : byte.toNat % 128 = byte.toNat - 128 := by omega
      have hnext := group_lt byte hvalue
      obtain ⟨number, hnumber, hresult⟩ := ih (by omega) (by rw [hgroup]; exact hnext) h
      refine ⟨byte.toNat - 128 + 128 * number, ?_, ?_⟩
      · rw [readSleb, if_neg (by omega), if_neg hmore, hnumber]
        rfl
      · rw [hresult, hgroup, hmodEq]
        push_cast [Nat.cast_sub (Nat.not_lt.mp hmore), hsplit]
        ring

/-- A signed number that is read has its mathematical value. -/
theorem signed_reads {value : Int64} (h : signed.run input = .ok (value, after)) :
    readSleb input.rest = some (value.toInt, after.rest) := by
  obtain ⟨number, hnumber, hvalue⟩ := signedFrom_reads rfl (by decide) h
  rw [hnumber, hvalue]
  simp

end Readers

/-! ## The expansion of a column -/

inductive Cell where
  | null
  | number (value : Nat)
  | signed (value : Int)
  | text (bytes : Bytes)
  | flag (value : Bool)

/-- The number of a cell, if it has one. -/
def Cell.value : Cell → Nat
  | .number value => value
  | _ => 0

def Cell.textLength : Cell → Nat
  | .text bytes => bytes.length
  | _ => 0

/-- Read one cell of a column. -/
def readCell (type : Nat) (bytes : Bytes) : Option (Cell × Bytes) :=
  match type with
  | 0 | 1 | 2 | 6 => (readUleb bytes).map fun (value, rest) => (.number value, rest)
  | 3 => (readSleb bytes).map fun (value, rest) => (.signed value, rest)
  | 5 =>
    match readUleb bytes with
    | none => none
    | some (len, rest) =>
      if rest.length < len then none else some (.text (rest.take len), rest.drop len)
  | _ => none

/-- Read cells one after another. -/
def readCells (type : Nat) : Nat → Bytes → Option (List Cell × Bytes)
  | 0, bytes => some ([], bytes)
  | count + 1, bytes =>
    match readCell type bytes with
    | none => none
    | some (cell, rest) =>
      (readCells type count rest).map fun (cells, rest) => (cell :: cells, rest)

/-- The cells of the first run: flags of one value, nulls, one repeated cell, or a sequence of
literals. -/
def nextRun (type : Nat) (value : Bool) (data : Bytes) : Option (List Cell × Bytes) :=
  if type = 4 then
    (readUleb data).map fun (count, rest) => (List.replicate count (.flag value), rest)
  else
    match readSleb data with
    | none => none
    | some (run, rest) =>
      if run = 0 then
        (readUleb rest).map fun (count, rest) => (List.replicate count .null, rest)
      else if 0 < run then
        (readCell type rest).map fun (cell, rest) => (List.replicate run.natAbs cell, rest)
      else readCells type run.natAbs rest

variable {type count repeats seen : Nat}

theorem readCell_shortens {bytes rest : Bytes} {cell : Cell}
    (h : readCell type bytes = some (cell, rest)) : rest.length < bytes.length := by
  unfold readCell at h
  split at h
  iterate 4
    · obtain ⟨⟨value, left⟩, hread, hsame⟩ := Option.map_eq_some_iff.mp h
      cases hsame
      exact readUleb_shortens hread
  · obtain ⟨⟨value, left⟩, hread, hsame⟩ := Option.map_eq_some_iff.mp h
    cases hsame
    exact readSleb_shortens hread
  · split at h
    · cases h
    · rename_i len left hread
      split at h
      · cases h
      · cases h
        rw [List.length_drop]
        exact Nat.lt_of_le_of_lt (Nat.sub_le _ _) (readUleb_shortens hread)
  · cases h

/-- As many cells are read as were asked for, and each takes a byte. -/
theorem readCells_spec {bytes rest : Bytes} {cells : List Cell}
    (h : readCells type count bytes = some (cells, rest)) :
    cells.length = count ∧ rest.length + count ≤ bytes.length := by
  induction count generalizing bytes cells with
  | zero =>
    cases h
    exact ⟨rfl, Nat.le_refl _⟩
  | succ count ih =>
    unfold readCells at h
    split at h
    · cases h
    · rename_i cell left hcell
      obtain ⟨⟨more, last⟩, hmore, hsame⟩ := Option.map_eq_some_iff.mp h
      cases hsame
      have hfirst := readCell_shortens hcell
      obtain ⟨hlength, hlater⟩ := ih hmore
      exact ⟨by rw [List.length_cons, hlength], by omega⟩

theorem nextRun_shortens {value : Bool} {data rest : Bytes} {cells : List Cell}
    (h : nextRun type value data = some (cells, rest)) : rest.length < data.length := by
  unfold nextRun at h
  split at h
  · obtain ⟨⟨count, last⟩, hcount, hsame⟩ := Option.map_eq_some_iff.mp h
    cases hsame
    exact readUleb_shortens hcount
  split at h
  · cases h
  rename_i run left hhead
  have hhead := readSleb_shortens hhead
  split at h
  · obtain ⟨⟨count, last⟩, hcount, hsame⟩ := Option.map_eq_some_iff.mp h
    cases hsame
    exact Nat.lt_trans (readUleb_shortens hcount) hhead
  split at h
  · obtain ⟨⟨cell, last⟩, hcell, hsame⟩ := Option.map_eq_some_iff.mp h
    cases hsame
    exact Nat.lt_trans (readCell_shortens hcell) hhead
  · have hcells := (readCells_spec h).2
    omega

/-- All cells of a column, run after run. The value of flags changes from run to run. -/
def expandRuns (type : Nat) (value : Bool) (data : Bytes) : Option (List Cell) :=
  if data = [] then some []
  else
    match hrun : nextRun type value data with
    | none => none
    | some (cells, rest) =>
      have : rest.length < data.length := nextRun_shortens hrun
      (expandRuns type (!value) rest).map fun more => cells ++ more
termination_by data.length

/-- All cells of a column, written out. -/
def expandColumn (spec : UInt64) (data : Bytes) : Option (List Cell) :=
  expandRuns (columnType spec) false data

theorem expandRuns_of_nextRun {value : Bool} {data rest : Bytes}
    {cells more : List Cell} (hne : data ≠ []) (hrun : nextRun type value data = some (cells, rest))
    (hmore : expandRuns type (!value) rest = some more) :
    expandRuns type value data = some (cells ++ more) := by
  rw [expandRuns, if_neg hne]
  split
  · rename_i hnone
    rw [hrun] at hnone
    cases hnone
  · rename_i found left hsome
    rw [hrun] at hsome
    cases hsome
    rw [hmore]
    rfl

/-! ## What an expansion adds to the counters -/

/-- The cells of a column, those of the action column, the sum of the predecessor counts, the
length of all strings, and the bytes that value headers declare. -/
def tally (spec : UInt64) (cells : List Cell) : Totals
  | .cells => cells.length
  | .actions => if spec = 0x42 then cells.length else 0
  | .predecessors => if spec = 0x70 then (cells.map Cell.value).sum else 0
  | .strings => (cells.map Cell.textLength).sum
  | .valueBytes =>
    if columnType spec = 6 then (cells.map fun cell => cell.value / 16).sum else 0

/-- What a cell adds when its run is charged. -/
def headWeight (spec : UInt64) : Counter → Nat
  | .cells => 1
  | .actions => if spec = 0x42 then 1 else 0
  | _ => 0

/-- What a cell adds when it is looked at. -/
def itemWeight (spec : UInt64) (cell : Cell) : Counter → Nat
  | .predecessors => if spec = 0x70 then cell.value else 0
  | .strings => cell.textLength
  | .valueBytes => if columnType spec = 6 then cell.value / 16 else 0
  | _ => 0

theorem tally_eq_sum (spec : UInt64) (cells : List Cell) (counter : Counter) :
    tally spec cells counter =
      (cells.map fun cell => headWeight spec counter + itemWeight spec cell counter).sum := by
  induction cells with
  | nil => cases counter <;> simp [tally]
  | cons cell cells ih =>
    rw [List.map_cons, List.sum_cons, ← ih]
    cases counter with
    | cells => simp [tally, headWeight, itemWeight, Nat.add_comm]
    | strings => simp [tally, headWeight, itemWeight]
    | predecessors | valueBytes =>
      dsimp only [tally, headWeight, itemWeight]
      split <;> simp
    | actions =>
      dsimp only [tally, headWeight, itemWeight]
      split <;> simp [Nat.add_comm]

theorem tally_append (spec : UInt64) (left right : List Cell) (counter : Counter) :
    tally spec (left ++ right) counter = tally spec left counter + tally spec right counter := by
  simp only [tally_eq_sum, List.map_append, List.sum_append]

theorem tally_replicate (spec : UInt64) (count : Nat) (cell : Cell) (counter : Counter) :
    tally spec (List.replicate count cell) counter =
      count * headWeight spec counter + count * itemWeight spec cell counter := by
  simp only [tally_eq_sum, List.map_replicate, List.sum_replicate, smul_eq_mul, Nat.mul_add]

theorem tally_cells (spec : UInt64) (cells : List Cell) (counter : Counter) :
    tally spec cells counter = cells.length * headWeight spec counter +
      (cells.map fun cell => itemWeight spec cell counter).sum := by
  rw [tally_eq_sum, List.sum_map_add, List.map_const', List.sum_replicate, smul_eq_mul]

/-! ## What a scan charges -/

variable {limits totals after : Totals} {spec : UInt64} {input left : Input}

/-- Every counter has grown by its amount, and is within its limit if it was before. -/
structure Grown (limits totals : Totals) (amount : Counter → Nat) (after : Totals) : Prop where
  sum : ∀ counter, after counter = totals counter + amount counter
  within : (∀ counter, totals counter ≤ limits counter) → ∀ counter, after counter ≤ limits counter

theorem Grown.refl (limits totals : Totals) : Grown limits totals (fun _ => 0) totals :=
  ⟨fun _ => rfl, id⟩

theorem Grown.trans {limits first second third : Totals} {left right : Counter → Nat}
    (hleft : Grown limits first left second) (hright : Grown limits second right third) :
    Grown limits first (fun counter => left counter + right counter) third := by
  refine ⟨fun counter => ?_, fun h => hright.within (hleft.within h)⟩
  rw [hright.sum, hleft.sum, Nat.add_assoc]

theorem Grown.congr {left right : Counter → Nat} (h : Grown limits totals left after)
    (hsame : ∀ counter, left counter = right counter) :
    Grown limits totals right after :=
  ⟨fun counter => by rw [h.sum, hsame], h.within⟩

theorem charge_grown {counter : Counter} {value : Nat}
    (h : charge limits counter value totals = .ok after) :
    Grown limits totals (fun other => if other = counter then value else 0) after := by
  unfold charge at h
  split at h
  · cases h
  rename_i sum hsum
  obtain ⟨hlimit, h⟩ := guard_eq_ok.mp h
  cases h
  have hsum := checkedAddNat_eq_some hsum
  refine ⟨fun other => ?_, fun hwithin other => ?_⟩
  · by_cases hother : other = counter
    · subst hother
      rw [Function.update_self, if_pos rfl, hsum]
    · rw [Function.update_of_ne hother, if_neg hother, Nat.add_zero]
  · by_cases hother : other = counter
    · subst hother
      rw [Function.update_self]
      exact Nat.not_lt.mp hlimit
    · rw [Function.update_of_ne hother]
      exact hwithin other

theorem checkedMul_eq_ok {left right product : Nat} (h : checkedMul left right = .ok product) :
    product = left * right := by
  unfold checkedMul at h
  split at h
  · exact (Except.ok.inj h).symm
  · cases h

theorem chargeRepeated_grown {counts : Prop} [Decidable counts] {counter : Counter} {value : Nat}
    (h : chargeRepeated counts limits counter value repeats totals = .ok after) :
    Grown limits totals
      (fun other => if other = counter then repeats * (if counts then value else 0) else 0)
      after := by
  unfold chargeRepeated at h
  split at h
  · rename_i hcounts
    obtain ⟨charged, hcharged, h⟩ := bind_eq_ok.mp h
    refine (charge_grown h).congr fun other => ?_
    rw [checkedMul_eq_ok hcharged, if_pos hcounts, Nat.mul_comm]
  · rename_i hcounts
    cases h
    refine (Grown.refl limits totals).congr fun other => ?_
    rw [if_neg hcounts, Nat.mul_zero, ite_self]

theorem chargeNumber_grown {spec value : UInt64}
    (h : chargeNumber limits spec value repeats totals = .ok after) :
    Grown limits totals (fun counter => repeats * itemWeight spec (.number value.toNat) counter)
      after := by
  unfold chargeNumber at h
  obtain ⟨middle, hmiddle, h⟩ := bind_eq_ok.mp h
  have hshift : (value >>> 4).toNat = value.toNat / 16 := by
    rw [UInt64.toNat_shiftRight]
    exact Nat.shiftRight_eq_div_pow _ 4
  refine ((chargeRepeated_grown hmiddle).trans (chargeRepeated_grown h)).congr fun counter => ?_
  rw [hshift]
  cases counter <;> simp [itemWeight, Cell.textLength, Cell.value]

theorem chargeText_grown (spec : UInt64) {text : Bytes}
    (h : chargeText limits text repeats totals = .ok after) :
    Grown limits totals (fun counter => repeats * itemWeight spec (.text text) counter) after := by
  unfold chargeText at h
  refine (chargeRepeated_grown h).congr fun counter => ?_
  cases counter <;> simp [itemWeight, Cell.textLength, Cell.value]

theorem sized_reads {input after : Input} {bytes : Bytes}
    (h : sized.run input = .ok (bytes, after)) :
    ∃ rest, readUleb input.rest = some (bytes.length, rest) ∧ rest = bytes ++ after.rest := by
  unfold sized at h
  rw [StateT.run_bind] at h
  obtain ⟨⟨len, middle⟩, hlen, h⟩ := bind_eq_ok.mp h
  obtain ⟨hlength, hrest⟩ := take_reads h
  refine ⟨middle.rest, ?_, hrest⟩
  rw [hlength]
  exact unsigned_reads hlen

theorem scanItem_reads (h : scanItem limits spec repeats totals input = .ok (after, left)) :
    ∃ cell, readCell (columnType spec) input.rest = some (cell, left.rest) ∧
      Grown limits totals (fun counter => repeats * itemWeight spec cell counter) after := by
  unfold scanItem at h
  unfold readCell
  split at h
  iterate 4
    · obtain ⟨⟨value, found⟩, hvalue, h⟩ := bind_eq_ok.mp h
      obtain ⟨totals', hcharge, h⟩ := bind_eq_ok.mp h
      cases h
      refine ⟨.number value.toNat, ?_, chargeNumber_grown hcharge⟩
      rw [unsigned_reads hvalue]
      rfl
  · obtain ⟨⟨value, found⟩, hvalue, h⟩ := bind_eq_ok.mp h
    cases h
    refine ⟨.signed value.toInt, ?_, (Grown.refl limits totals).congr fun counter => ?_⟩
    · rw [signed_reads hvalue]
      rfl
    · cases counter <;> simp [itemWeight, Cell.textLength, Cell.value]
  · obtain ⟨⟨text, found⟩, htext, h⟩ := bind_eq_ok.mp h
    obtain ⟨totals', hcharge, h⟩ := bind_eq_ok.mp h
    cases h
    obtain ⟨rest, hread, hrest⟩ := sized_reads htext
    refine ⟨.text text, ?_, chargeText_grown spec hcharge⟩
    simp [hread, hrest]
  · cases h

theorem scanLiterals_reads {literals : Nat}
    (h : (scanLiterals limits spec repeats literals totals input seen).1 = .ok (after, left)) :
    ∃ cells, readCells (columnType spec) literals input.rest = some (cells, left.rest) ∧
      Grown limits totals
        (fun counter => repeats * (cells.map fun cell => itemWeight spec cell counter).sum)
        after := by
  induction literals generalizing totals input seen with
  | zero =>
    cases h
    exact ⟨[], rfl, Grown.refl limits after⟩
  | succ literals ih =>
    unfold scanLiterals at h
    split at h
    · cases h
    rename_i middle next hitem
    obtain ⟨cell, hcell, hfirst⟩ := scanItem_reads hitem
    obtain ⟨cells, hcells, hlater⟩ := ih h
    refine ⟨cell :: cells, ?_, (hfirst.trans hlater).congr fun counter => ?_⟩
    · simp only [readCells, hcell, hcells, Option.map_some]
    · rw [List.map_cons, List.sum_cons, Nat.mul_add]

theorem runHead_reads {run : Int64} (h : runHead.run input = .ok ((run, count), left)) :
    ∃ rest, readSleb input.rest = some (run.toInt, rest) ∧
      (run = 0 → readUleb rest = some (count, left.rest)) ∧
      (run ≠ 0 → count = run.toInt.natAbs ∧ left.rest = rest) := by
  unfold runHead at h
  rw [StateT.run_bind] at h
  obtain ⟨⟨found, middle⟩, hfound, h⟩ := bind_eq_ok.mp h
  refine ⟨middle.rest, ?_⟩
  dsimp only at h
  split at h
  · rename_i hzero
    rw [StateT.run_bind] at h
    obtain ⟨⟨number, last⟩, hnumber, h⟩ := bind_eq_ok.mp h
    cases h
    exact ⟨signed_reads hfound, fun _ => unsigned_reads hnumber, fun hne => absurd hzero hne⟩
  · rename_i hzero
    split at h
    · cases h
    · cases h
      exact ⟨signed_reads hfound, fun h => absurd h hzero, fun _ => ⟨rfl, rfl⟩⟩

theorem chargeRun_grown (h : chargeRun limits spec count totals = .ok after) :
    Grown limits totals (fun counter => count * headWeight spec counter) after := by
  unfold chargeRun at h
  obtain ⟨middle, hmiddle, h⟩ := bind_eq_ok.mp h
  have hcells := charge_grown hmiddle
  split at h
  · rename_i hspec
    refine (hcells.trans (charge_grown h)).congr fun counter => ?_
    cases counter <;> simp [headWeight, hspec]
  · rename_i hspec
    cases h
    refine hcells.congr fun counter => ?_
    cases counter <;> simp [headWeight, hspec]

/-- A run adds what its cells add, however it spells them. -/
theorem scanRun_reads
    (h : (scanRun limits spec totals input seen).1 = .ok (after, left)) (value : Bool) :
    ∃ cells, nextRun (columnType spec) value input.rest = some (cells, left.rest) ∧
      Grown limits totals (tally spec cells) after := by
  unfold scanRun at h
  unfold nextRun
  split at h
  · -- flags: the action column is not one of flags, so that only cells are counted
    rename_i htype
    obtain ⟨⟨count, middle⟩, hcount, h⟩ := bind_eq_ok.mp h
    obtain ⟨totals', hcharge, h⟩ := bind_eq_ok.mp h
    cases h
    have haction : spec ≠ 0x42 := by
      rintro rfl
      exact absurd htype (by decide)
    rw [if_pos htype, unsigned_reads hcount]
    refine ⟨_, rfl, (charge_grown hcharge).congr fun counter => ?_⟩
    rw [tally_replicate]
    cases counter <;> simp [headWeight, itemWeight, Cell.value, Cell.textLength, haction]
  rename_i htype
  split at h
  · cases h
  rename_i run count middle hhead
  obtain ⟨rest, hrun, hnull, hcount⟩ := runHead_reads hhead
  split at h
  · cases h
  rename_i charged hcharged
  have hcharged := chargeRun_grown hcharged
  rw [if_neg htype, hrun]
  dsimp only
  have hzero : run.toInt = 0 ↔ run = 0 := by
    rw [← Int64.toInt_inj]
    rfl
  split at h
  · rename_i hrunZero
    cases h
    rw [if_pos (hzero.mpr hrunZero), hnull hrunZero]
    refine ⟨_, rfl, hcharged.congr fun counter => ?_⟩
    rw [tally_replicate]
    cases counter <;> simp [itemWeight, Cell.value, Cell.textLength]
  rename_i hrunZero
  obtain ⟨rfl, hmiddle⟩ := hcount hrunZero
  rw [if_neg (mt hzero.mp hrunZero), ← hmiddle]
  obtain ⟨cells, hcells, hgrown⟩ := scanLiterals_reads h
  by_cases hnegative : run < 0
  · have hsign : ¬ 0 < run.toInt := by
      have hlt : run.toInt < 0 := Int64.lt_iff_toInt_lt.mp hnegative
      omega
    rw [if_pos hnegative] at hcells hgrown
    rw [if_neg hsign]
    refine ⟨cells, hcells, (hcharged.trans hgrown).congr fun counter => ?_⟩
    rw [tally_cells, (readCells_spec hcells).1, Nat.one_mul]
  · have hsign : 0 < run.toInt := by
      have hle : ¬ run.toInt < 0 := fun hlt => hnegative (Int64.lt_iff_toInt_lt.mpr hlt)
      have hne := mt hzero.mp hrunZero
      omega
    rw [if_neg hnegative] at hcells hgrown
    rw [if_pos hsign]
    unfold readCells at hcells
    split at hcells
    · cases hcells
    rename_i cell last hcell
    cases hcells
    rw [hcell]
    refine ⟨_, rfl, (hcharged.trans hgrown).congr fun counter => ?_⟩
    rw [tally_replicate]
    simp

theorem tallies_done (limits totals : Totals) (hend : input.done = true) (value : Bool) :
    ∃ cells, expandRuns (columnType spec) value input.rest = some cells ∧
      Grown limits totals (tally spec cells) totals := by
  rw [List.isEmpty_iff.mp hend, expandRuns, if_pos rfl]
  refine ⟨[], rfl, (Grown.refl limits totals).congr fun counter => ?_⟩
  rw [tally_eq_sum]
  rfl

/-- A column that is scanned to its end adds what its expansion adds. -/
theorem scanRuns_tallies {turns : Nat} {input : Input}
    (h : (scanRuns limits spec turns totals input seen).1 = .ok after) (value : Bool) :
    ∃ cells, expandRuns (columnType spec) value input.rest = some cells ∧
      Grown limits totals (tally spec cells) after := by
  induction turns generalizing totals input seen value with
  | zero =>
    unfold scanRuns at h
    dsimp only at h
    split at h
    · rename_i hend
      cases h
      exact tallies_done limits after hend value
    · cases h
  | succ turns ih =>
    unfold scanRuns at h
    split at h
    · rename_i hend
      cases h
      exact tallies_done limits after hend value
    rename_i hmore
    split at h
    · cases h
    rename_i middle next seen' hrun
    obtain ⟨cells, hcells, hfirst⟩ := scanRun_reads (congrArg Prod.fst hrun) value
    obtain ⟨more, hexpand, hlater⟩ := ih h (!value)
    have hne : input.rest ≠ [] := fun hnil => hmore (List.isEmpty_iff.mpr hnil)
    refine ⟨cells ++ more, expandRuns_of_nextRun hne hcells hexpand,
      (hfirst.trans hlater).congr fun counter => ?_⟩
    rw [tally_append]

/-! ## How far a scan looks -/

theorem scanItem_shortens (h : scanItem limits spec repeats totals input = .ok (after, left)) :
    left.rest.length < input.rest.length := by
  obtain ⟨cell, hcell, -⟩ := scanItem_reads h
  exact readCell_shortens hcell

theorem runHead_shortens {head : Int64 × Nat} (h : runHead.run input = .ok (head, left)) :
    left.rest.length < input.rest.length := by
  obtain ⟨rest, hrun, hnull, hcount⟩ := runHead_reads h
  have hhead := readSleb_shortens hrun
  by_cases hzero : head.1 = 0
  · exact Nat.lt_trans (readUleb_shortens (hnull hzero)) hhead
  · rw [(hcount hzero).2]
    exact hhead

theorem scanRun_shortens (h : (scanRun limits spec totals input seen).1 = .ok (after, left)) :
    left.rest.length < input.rest.length := by
  obtain ⟨cells, hcells, -⟩ := scanRun_reads h false
  exact nextRun_shortens hcells

/-- What a scan may still look at: a refused one nothing, an accepted one a literal for each byte
that is left, and the one after them. -/
def ahead {α : Type} : Except ReplError (α × Input) → Nat
  | .ok (_, left) => left.rest.length + 1
  | .error _ => 0

/-- Each literal that is taken shortens the input; only the last one looked at can be refused. -/
theorem scanLiterals_seen (limits totals : Totals) (spec : UInt64) (repeats literals : Nat)
    (input : Input) (seen : Nat) :
    (scanLiterals limits spec repeats literals totals input seen).2 +
      ahead (scanLiterals limits spec repeats literals totals input seen).1 ≤
        seen + input.rest.length + 1 := by
  induction literals generalizing totals input seen with
  | zero => exact Nat.le_refl _
  | succ literals ih =>
    unfold scanLiterals
    split
    · dsimp only [ahead]
      omega
    · rename_i middle next hitem
      have hshort := scanItem_shortens hitem
      have hlater := ih middle next (seen + 1)
      omega

theorem scanRun_seen (limits totals : Totals) (spec : UInt64) (input : Input) (seen : Nat) :
    (scanRun limits spec totals input seen).2 + ahead (scanRun limits spec totals input seen).1 ≤
      seen + input.rest.length := by
  have hshort : ahead (scanRun limits spec totals input seen).1 ≤ input.rest.length := by
    generalize hscan : (scanRun limits spec totals input seen).1 = scan
    cases scan with
    | error error => exact Nat.zero_le _
    | ok pair => exact scanRun_shortens hscan
  unfold scanRun at hshort ⊢
  split
  · rename_i htype
    rw [if_pos htype] at hshort
    exact Nat.add_le_add_left hshort seen
  split
  · exact Nat.le_add_right seen _
  rename_i run count middle hhead
  have hless := runHead_shortens hhead
  split
  · exact Nat.le_add_right seen _
  rename_i charged hcharged
  split
  · exact Nat.add_le_add_left hless seen
  · have hliterals := scanLiterals_seen limits charged spec (if run < 0 then 1 else count)
      (if run < 0 then count else 1) middle seen
    dsimp only
    omega

/-- The literals looked at are never more than the bytes of the column, however many cells its runs
stand for. -/
theorem scanRuns_seen (limits totals : Totals) (spec : UInt64) (turns : Nat) (input : Input)
    (seen : Nat) : (scanRuns limits spec turns totals input seen).2 ≤ seen + input.rest.length := by
  induction turns generalizing totals input seen with
  | zero => exact Nat.le_add_right seen _
  | succ turns ih =>
    have hbound := scanRun_seen limits totals spec input seen
    unfold scanRuns
    split
    · exact Nat.le_add_right seen _
    split
    · rename_i error seen' hrun
      rw [hrun] at hbound
      exact hbound
    · rename_i middle next seen' hrun
      rw [hrun] at hbound
      exact Nat.le_trans (ih middle next seen') (Nat.le_of_succ_le hbound)

/-- More turns than bytes change nothing. -/
theorem scanRuns_turns (limits totals : Totals) (spec : UInt64) {turns more : Nat} (input : Input)
    (seen : Nat) (hturns : input.rest.length ≤ turns) (hmore : turns ≤ more) :
    scanRuns limits spec more totals input seen = scanRuns limits spec turns totals input seen := by
  induction turns generalizing totals input seen more with
  | zero =>
    have hdone : input.done = true := List.isEmpty_iff.mpr (List.length_eq_zero_iff.mp (by omega))
    cases more with
    | zero => rfl
    | succ more => simp only [scanRuns, hdone, if_pos]
  | succ turns ih =>
    obtain ⟨more, rfl⟩ : ∃ less, more = less + 1 := ⟨more - 1, by omega⟩
    unfold scanRuns
    split
    · rfl
    split
    · rfl
    · rename_i middle next seen' hrun
      have hshort := scanRun_shortens (congrArg Prod.fst hrun)
      exact ih middle next seen' (by omega) (by omega)

/-! ## Whole chunks -/

/-- The cells of every run-length column, in the order of the headers. -/
def expandColumns : List (UInt64 × UInt64) → Bytes → Option (List (UInt64 × List Cell))
  | [], _ => some []
  | (spec, len) :: columns, bytes =>
    if bytes.length < len.toNat then none
    else if columnType spec = 7 then expandColumns columns (bytes.drop len.toNat)
    else
      match expandColumn spec (bytes.take len.toNat) with
      | none => none
      | some cells =>
        (expandColumns columns (bytes.drop len.toNat)).map fun more => (spec, cells) :: more

/-- All columns of a chunk, written out. -/
def expandChunk (bytes : Bytes) : Option (List (UInt64 × List Cell)) :=
  match chunkHeader bytes with
  | .error _ => none
  | .ok (columns, input) => expandColumns columns input.rest

/-- What all columns of a chunk add up to. -/
def chunkTotal (columns : List (UInt64 × List Cell)) (counter : Counter) : Nat :=
  (columns.map fun column => tally column.1 column.2 counter).sum

theorem scanColumns_tallies {columns : List (UInt64 × UInt64)} {input : Input}
    (h : scanColumns limits columns totals input = .ok after) :
    ∃ expanded, expandColumns columns input.rest = some expanded ∧
      Grown limits totals (chunkTotal expanded) after := by
  induction columns generalizing totals input with
  | nil =>
    cases h
    exact ⟨[], rfl, Grown.refl limits after⟩
  | cons column columns ih =>
    obtain ⟨spec, len⟩ := column
    unfold scanColumns at h
    obtain ⟨⟨data, next⟩, hdata, h⟩ := bind_eq_ok.mp h
    obtain ⟨hlength, hrest⟩ := take_reads hdata
    have hfits : ¬ (data ++ next.rest).length < len.toNat := by
      rw [List.length_append]
      omega
    have htake : (data ++ next.rest).take len.toNat = data := by
      rw [← hlength, List.take_left]
    have hdrop : (data ++ next.rest).drop len.toNat = next.rest := by
      rw [← hlength, List.drop_left]
    unfold expandColumns
    rw [hrest, if_neg hfits, htake, hdrop]
    dsimp only at h
    split at h
    · rename_i htype
      rw [if_pos htype]
      exact ih h
    · rename_i htype
      rw [if_neg htype]
      obtain ⟨middle, hscan, h⟩ := bind_eq_ok.mp h
      obtain ⟨cells, hcells, hfirst⟩ := scanRuns_tallies hscan false
      obtain ⟨more, hmore, hlater⟩ := ih h
      have hcells : expandColumn spec data = some cells := hcells
      rw [hcells, hmore]
      refine ⟨(spec, cells) :: more, rfl, (hfirst.trans hlater).congr fun counter => ?_⟩
      unfold chunkTotal
      rw [List.map_cons, List.sum_cons]

/-- A chunk that passes expands within every limit and has an action. The scan looks at no more
literals than a column has bytes, for any number of turns that is enough, and its numbers are the
numbers that the bytes spell. -/
theorem checkLimits_sound (bytes : Bytes)
    (maxActions maxCells maxPredecessors maxStrings : UInt64) :
    (checkLimits bytes maxActions maxCells maxPredecessors maxStrings = .ok () →
      ∃ columns, expandChunk bytes = some columns ∧
        chunkTotal columns .cells ≤ maxCells.toNat ∧
        1 ≤ chunkTotal columns .actions ∧
        chunkTotal columns .actions ≤ maxActions.toNat ∧
        chunkTotal columns .predecessors ≤ maxPredecessors.toNat ∧
        chunkTotal columns .strings ≤ maxStrings.toNat ∧
        chunkTotal columns .valueBytes ≤ bytes.length) ∧
    (∀ (limits totals : Totals) (spec : UInt64) (data : Bytes),
      (scanColumn limits spec data totals).2 ≤ data.length ∧
      ∀ turns, data.length ≤ turns →
        scanRuns limits spec turns totals (.new data) 0 = scanColumn limits spec data totals) ∧
    (∀ (input after : Input) (value : UInt64), unsigned.run input = .ok (value, after) →
      readUleb input.rest = some (value.toNat, after.rest)) ∧
    (∀ (input after : Input) (value : Int64), signed.run input = .ok (value, after) →
      readSleb input.rest = some (value.toInt, after.rest)) := by
  refine ⟨fun h => ?_, fun limits totals spec data => ⟨?_, fun turns hturns => ?_⟩,
    fun input after value => unsigned_reads, fun input after value => signed_reads⟩
  · unfold checkLimits at h
    obtain ⟨⟨columns, input⟩, hheader, h⟩ := bind_eq_ok.mp h
    obtain ⟨totals, hscan, h⟩ := bind_eq_ok.mp h
    obtain ⟨hactions, -⟩ := guard_eq_ok.mp h
    obtain ⟨expanded, hexpand, hgrown⟩ := scanColumns_tallies hscan
    have hsum : ∀ counter, chunkTotal expanded counter = totals counter := by
      intro counter
      rw [hgrown.sum, Nat.zero_add]
    have hwithin := hgrown.within fun _ => Nat.zero_le _
    have hchunk : expandChunk bytes = some expanded := by
      unfold expandChunk
      rw [hheader]
      exact hexpand
    refine ⟨expanded, hchunk, ?_⟩
    simp only [hsum]
    exact ⟨hwithin .cells, Nat.pos_of_ne_zero hactions, hwithin .actions, hwithin .predecessors,
      hwithin .strings, hwithin .valueBytes⟩
  · have hseen := scanRuns_seen limits totals spec data.length (.new data) 0
    rwa [Nat.zero_add] at hseen
  · exact scanRuns_turns limits totals spec (.new data) 0 (Nat.le_refl data.length) hturns

/-- A chunk whose only column repeats one action seven times. -/
def sevenActions : Bytes :=
  [0x85, 0x6f, 0x4a, 0x83, 0, 0, 0, 0, 1, 44] ++ ([0, 32] ++ List.replicate 32 1) ++
    [1, 1, 0, 0, 0, 1, 0x42, 2, 7, 1]

theorem check_sevenActions : check sevenActions 7 = .ok () ∧
    ∃ columns, expandChunk sevenActions = some columns ∧ 1 ≤ chunkTotal columns .actions ∧
      chunkTotal columns .actions ≤ 7 := by
  have hcheck : check sevenActions 7 = .ok () := by rfl
  obtain ⟨columns, hexpand, -, hsome, hfew, -⟩ :=
    (checkLimits_sound sevenActions 7 1048576 262144 16777216).1 hcheck
  exact ⟨hcheck, columns, hexpand, hsome, hfew⟩

example : check sevenActions 6 = .error .epochBound := by rfl

end BoundedChange
end Mewtual
