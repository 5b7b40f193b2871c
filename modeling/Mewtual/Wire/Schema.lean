import Mewtual.Lib.Text

/-!
# Schemas of wire fields

A record is a list of fields of the kinds the codec knows. The source decodes with a cursor over
the whole input, while a reader sees only the bytes not yet consumed. Every getter of the cursor
follows its reader, so that what holds of readers holds of the cursor.

Main results:

- Theorem {lit}`Follows.decode`: the getters of a schema follow its readers.
- Theorem {lit}`accepts_readAll`: what the readers of a schema accept.
- Theorem {lit}`schemas_injective`: encodings of one schema are read back in front of any suffix,
  are prefix-free and are all that is accepted.
-/

namespace Mewtual.Schema

/-! ## Cursors -/

/-- The decoder of the source. Its position does not pass the end of the input. -/
structure Cursor where
  input : Bytes
  pos : Nat
  pos_le : pos ≤ input.length

/-- A method of the decoder, which moves the cursor also when it fails. -/
abbrev Getter (α : Type) := EStateM WireError Cursor α

namespace Cursor

def new (input : Bytes) : Cursor := ⟨input, 0, Nat.zero_le _⟩

def remaining (cursor : Cursor) : Nat := cursor.input.length - cursor.pos

/-- The bytes not yet consumed. -/
def rest (cursor : Cursor) : Bytes := cursor.input.drop cursor.pos

@[simp] theorem length_rest (cursor : Cursor) : cursor.rest.length = cursor.remaining :=
  List.length_drop

/-- The next bytes of the input. -/
def take (n : Nat) : Getter Bytes := fun cursor =>
  if h : cursor.remaining < n then .error (.unexpectedEof n cursor.remaining) cursor
  else .ok (cursor.rest.take n) ⟨cursor.input, cursor.pos + n, by
    have hle := cursor.pos_le
    unfold remaining at h
    omega⟩

/-- A big-endian number. -/
def getInt {α : Type} (width : Nat) (ofNat : Nat → α) : Getter α := do
  let bytes ← take width
  pure (ofNat (beNat bytes))

/-- A field that its length precedes. -/
def getBytes : Getter Bytes := do
  let len ← getInt 4 UInt32.ofNat
  let cursor ← get
  if cursor.remaining < len.toNat then throw (.lengthOverflow len.toNat cursor.remaining)
  take len.toNat

/-- A field of text. -/
def getStr : Getter String := do
  let bytes ← getBytes
  match String.fromUTF8? ⟨bytes.toArray⟩ with
  | some text => pure text
  | none => throw .invalidUtf8

/-- The input is used up. -/
def finish : Getter Unit := fun cursor =>
  if cursor.remaining = 0 then .ok () cursor else .error (.trailingBytes cursor.remaining) cursor

/-- A later position in the same input. -/
def Ahead (cursor after : Cursor) : Prop := after.input = cursor.input ∧ cursor.pos ≤ after.pos

end Cursor

/-- Where a getter leaves the cursor. -/
def stop {α : Type} : EStateM.Result WireError Cursor α → Cursor
  | .ok _ after | .error _ after => after

/-- What a getter returned, with the bytes not yet consumed. -/
def outcome {α : Type} : EStateM.Result WireError Cursor α → Except WireError (α × Bytes)
  | .ok value after => .ok (value, after.rest)
  | .error error _ => .error error

/-- The getter does what the reader does on the bytes not yet consumed, and also where it fails it
does not leave the input or move back. -/
def Follows {α : Type} (getter : Getter α) (reader : Decoder α) : Prop :=
  ∀ cursor, outcome (getter cursor) = reader.run cursor.rest ∧ cursor.Ahead (stop (getter cursor))

/-- A text field. -/
def getStr : Decoder String := do
  let bytes ← getBytes
  match String.fromUTF8? ⟨bytes.toArray⟩ with
  | some text => pure text
  | none => throw .invalidUtf8

namespace Follows

variable {α β : Type}

theorem pure (value : α) : Follows (Pure.pure value) (Pure.pure value) :=
  fun _ => ⟨rfl, rfl, Nat.le_refl _⟩

theorem throw (error : WireError) :
    Follows (MonadExcept.throw error : Getter α) (MonadExcept.throw error) :=
  fun _ => ⟨rfl, rfl, Nat.le_refl _⟩

theorem bind {getter : Getter α} {reader : Decoder α} {next : α → Getter β}
    {following : α → Decoder β} (h : Follows getter reader)
    (hnext : ∀ value, Follows (next value) (following value)) :
    Follows (getter >>= next) (reader >>= following) := by
  intro cursor
  obtain ⟨hrun, hinput, hpos⟩ := h cursor
  change outcome (EStateM.bind getter next cursor) = _ ∧
    cursor.Ahead (stop (EStateM.bind getter next cursor))
  rw [StateT.run_bind, ← hrun]
  unfold EStateM.bind
  cases hget : getter cursor with
  | error error after =>
    rw [hget] at hinput hpos
    exact ⟨rfl, hinput, hpos⟩
  | ok value after =>
    rw [hget] at hinput hpos
    obtain ⟨hsame, hafter, hlater⟩ := hnext value after
    exact ⟨hsame, hafter.trans hinput, hpos.trans hlater⟩

theorem take (n : Nat) : Follows (Cursor.take n) (Mewtual.take n) := by
  intro cursor
  by_cases h : cursor.remaining < n
  · simp [Cursor.take, Mewtual.take, StateT.run, outcome, stop, Cursor.Ahead, h]
  · have hle : n ≤ cursor.input.length - cursor.pos := Nat.not_lt.mp h
    simp [Cursor.take, Mewtual.take, StateT.run, outcome, stop, Cursor.Ahead, h, hle, Cursor.rest]

theorem getInt (width : Nat) (ofNat : Nat → α) :
    Follows (Cursor.getInt width ofNat) (Mewtual.getInt width ofNat) :=
  (take width).bind fun _ => pure _

theorem getBytes : Follows Cursor.getBytes Mewtual.getBytes := by
  refine (getInt 4 UInt32.ofNat).bind fun len cursor => ?_
  change outcome ((ite (cursor.remaining < _) _ _ : Getter Bytes) cursor) =
    StateT.run (ite (cursor.rest.length < _) _ _) cursor.rest ∧
    cursor.Ahead (stop ((ite (cursor.remaining < _) _ _ : Getter Bytes) cursor))
  rw [Cursor.length_rest]
  split
  · exact throw _ cursor
  · exact take len.toNat cursor

theorem getStr : Follows Cursor.getStr Schema.getStr := by
  refine getBytes.bind fun bytes => ?_
  cases String.fromUTF8? ⟨bytes.toArray⟩ with
  | none => exact throw _
  | some text => exact pure text

theorem finish : Follows Cursor.finish Mewtual.finish := by
  intro cursor
  by_cases h : cursor.remaining = 0 <;>
    simp [Cursor.finish, Mewtual.finish, StateT.run, outcome, stop, Cursor.Ahead, h]

theorem accepts {getter : Getter α} {reader : Decoder α} (h : Follows getter reader)
    {cursor : Cursor} {value : α} {left : Bytes} :
    Accepts reader cursor.rest value left ↔
      ∃ after, getter cursor = .ok value after ∧ after.rest = left := by
  unfold Accepts
  rw [← (h cursor).1]
  cases getter cursor <;> simp [outcome]

end Follows

/-! ## Kinds of fields -/

/-- The kinds of fields. -/
inductive FieldKind where
  | u8
  | u16
  | u32
  | u64
  | u128
  | bytes
  | str

namespace FieldKind

abbrev Value : FieldKind → Type
  | .u8 => UInt8
  | .u16 => UInt16
  | .u32 => UInt32
  | .u64 => UInt64
  | .u128 => Fixed 16
  | .bytes => Bytes
  | .str => String

/-- The encoder's method for a kind. -/
def put : (kind : FieldKind) → kind.Value → Except WireError Bytes
  | .u8, value => .ok (putU8 value)
  | .u16, value => .ok (putU16 value)
  | .u32, value => .ok (putU32 value)
  | .u64, value => .ok (putU64 value)
  | .u128, value => .ok (putU128 value)
  | .bytes, value => putBytes value
  | .str, value => putBytes (textBytes value)

/-- The decoder's method for a kind. -/
def get : (kind : FieldKind) → Getter kind.Value
  | .u8 => Cursor.getInt 1 UInt8.ofNat
  | .u16 => Cursor.getInt 2 UInt16.ofNat
  | .u32 => Cursor.getInt 4 UInt32.ofNat
  | .u64 => Cursor.getInt 8 UInt64.ofNat
  | .u128 => Cursor.getInt 16 (BitVec.ofNat (8 * 16))
  | .bytes => Cursor.getBytes
  | .str => Cursor.getStr

/-- Read a field of a kind. -/
def read : (kind : FieldKind) → Decoder kind.Value
  | .u8 => getU8
  | .u16 => getU16
  | .u32 => getU32
  | .u64 => getU64
  | .u128 => getU128
  | .bytes => getBytes
  | .str => getStr

theorem follows : ∀ kind : FieldKind, Follows kind.get kind.read
  | .u8 | .u16 | .u32 | .u64 | .u128 => Follows.getInt _ _
  | .bytes => Follows.getBytes
  | .str => Follows.getStr

end FieldKind

variable {input left : Bytes}

theorem putBytes_eq_ok {field bytes : Bytes} :
    putBytes field = .ok bytes ↔ bytes = framed field ∧ field.length < 2 ^ 32 := by
  unfold putBytes
  split <;> simp_all [eq_comm]

theorem accepts_getStr {text : String} : Accepts getStr input text left ↔
    input = framed (textBytes text) ++ left ∧ (textBytes text).length < 2 ^ 32 := by
  have hfound (bytes after : Bytes) : Accepts (ε := WireError)
      (match String.fromUTF8? ⟨bytes.toArray⟩ with
      | some found => pure found
      | none => throw .invalidUtf8) after text left ↔ bytes = textBytes text ∧ after = left := by
    rw [← fromUTF8_eq_some]
    cases String.fromUTF8? ⟨bytes.toArray⟩ <;> simp
  simp [getStr, hfound]

/-- A field is accepted exactly behind what the encoder appends for it. -/
theorem FieldKind.accepts_read {kind : FieldKind} {value : kind.Value} :
    Accepts kind.read input value left ↔
      ∃ bytes, kind.put value = .ok bytes ∧ input = bytes ++ left := by
  cases kind <;> simp [read, put, putBytes_eq_ok, accepts_getStr, and_comm]

/-! ## Schemas -/

/-- The values of a schema. -/
abbrev Values : List FieldKind → Type
  | [] => Unit
  | kind :: schema => kind.Value × Values schema

/-- The fields of a schema, one after another. -/
def encode : (schema : List FieldKind) → Values schema → Except WireError Bytes
  | [], _ => .ok []
  | kind :: schema, (value, values) => do
    let front ← kind.put value
    let back ← encode schema values
    pure (front ++ back)

/-- The matching getters, one after the other. -/
def decode : (schema : List FieldKind) → Getter (Values schema)
  | [] => pure ()
  | kind :: schema => do
    let value ← kind.get
    let values ← decode schema
    pure (value, values)

/-- Read the fields of a schema. -/
def readAll : (schema : List FieldKind) → Decoder (Values schema)
  | [] => pure ()
  | kind :: schema => do
    let value ← kind.read
    let values ← readAll schema
    pure (value, values)

theorem Follows.decode (schema : List FieldKind) : Follows (decode schema) (readAll schema) := by
  induction schema with
  | nil => exact pure ()
  | cons kind schema ih => exact kind.follows.bind fun value => ih.bind fun values => pure _

/-- The fields of a schema are accepted exactly behind their encoding. -/
theorem accepts_readAll {schema : List FieldKind} {values : Values schema} :
    Accepts (readAll schema) input values left ↔
      ∃ bytes, encode schema values = .ok bytes ∧ input = bytes ++ left := by
  induction schema generalizing input left with
  | nil => simp [readAll, encode, eq_comm]
  | cons kind schema ih =>
    obtain ⟨value, values⟩ := values
    simp only [readAll, encode, accepts_bind, FieldKind.accepts_read, ih, accepts_pure, bind_eq_ok]
    constructor
    · rintro ⟨_, _, ⟨front, hfront, rfl⟩, _, _, ⟨back, hback, rfl⟩, heq, rfl⟩
      cases heq
      exact ⟨front ++ back, ⟨front, hfront, back, hback, rfl⟩, (List.append_assoc _ _ _).symm⟩
    · rintro ⟨_, ⟨front, hfront, back, hback, heq⟩, rfl⟩
      cases heq
      exact ⟨value, back ++ left, ⟨front, hfront, List.append_assoc _ _ _⟩, values, left,
        ⟨back, hback, rfl⟩, rfl, rfl⟩

/-- The encoder refuses only fields that are too long for their length. -/
theorem encode_eq_error {schema : List FieldKind} {values : Values schema} {error : WireError}
    (h : encode schema values = .error error) : ∃ len, error = .tooLarge len ∧ 2 ^ 32 ≤ len := by
  induction schema with
  | nil => cases h
  | cons kind schema ih =>
    obtain ⟨value, values⟩ := values
    rw [encode] at h
    cases hput : kind.put value with
    | ok front =>
      rw [hput, ok_bind] at h
      cases hback : encode schema values with
      | ok back =>
        rw [hback] at h
        cases h
      | error found =>
        rw [hback] at h
        cases h
        exact ih hback
    | error found =>
      rw [hput] at h
      cases h
      cases kind <;> simp [FieldKind.put, putBytes] at hput <;> grind

/-- The getters of a schema, to the end of the input. -/
def decodeWhole (schema : List FieldKind) : Getter (Values schema) := do
  let values ← decode schema
  Cursor.finish
  pure values

/-- Encodings of one schema are read back in front of any suffix, none is the beginning of another,
what is accepted is the encoding of the values returned, and a getter that fails stays within its
input. -/
theorem schemas_injective (schema : List FieldKind) :
    (∀ values bytes, encode schema values = .ok bytes →
      ∀ cursor suffix, cursor.rest = bytes ++ suffix →
        ∃ after, decode schema cursor = .ok values after ∧ after.rest = suffix) ∧
    (∀ values error, encode schema values = .error error →
      ∃ len, error = .tooLarge len ∧ 2 ^ 32 ≤ len) ∧
    (∀ left right front back suffix, encode schema left = .ok front →
      encode schema right = .ok back → front ++ suffix = back → left = right ∧ suffix = []) ∧
    (∀ input values after, decodeWhole schema (Cursor.new input) = .ok values after →
      encode schema values = .ok input) ∧
    ∀ (kind : FieldKind) (cursor after : Cursor) (error : WireError),
      kind.get cursor = .error error after → after.input = cursor.input ∧
        cursor.pos ≤ after.pos ∧ after.pos ≤ after.input.length := by
  refine ⟨?_, fun values error => encode_eq_error, ?_, ?_, ?_⟩
  · intro values bytes hencode cursor suffix hrest
    exact (Follows.decode schema).accepts.mp (accepts_readAll.mpr ⟨bytes, hencode, hrest⟩)
  · intro left right front back suffix hleft hright heq
    have hfront : Reads (readAll schema) front left :=
      fun _ => accepts_readAll.mpr ⟨front, hleft, rfl⟩
    have hback : Reads (readAll schema) back right :=
      fun _ => accepts_readAll.mpr ⟨back, hright, rfl⟩
    exact hfront.append_inj hback (heq.trans (List.append_nil back).symm)
  · intro input values after hdecode
    have hfollows := (Follows.decode schema).bind fun values =>
      Follows.finish.bind fun _ => Follows.pure values
    have haccepts := hfollows.accepts.mpr ⟨after, hdecode, rfl⟩
    simp [accepts_readAll, accepts_finish, Cursor.new, Cursor.rest] at haccepts
    exact haccepts.1
  · intro kind cursor after error hget
    have hahead := (kind.follows cursor).2
    rw [hget] at hahead
    exact ⟨hahead.1, hahead.2, after.pos_le⟩

end Mewtual.Schema
