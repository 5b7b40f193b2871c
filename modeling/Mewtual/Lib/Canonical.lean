import Mewtual.Lib.Bytes

/-!
# Canonical readers

What a reader accepts is told by one equivalence: the value it yields, the bytes it leaves, and the
bytes that stood in front of them. The rules below take a reader apart field by field, so that the
equivalence of a record follows from those of its fields and holds both directions of a round trip.

Main results:

- Theorem {lit}`accepts_bind`: two readers in sequence.
- Theorem {lit}`accepts_times`: a counted run of fields.
- Theorem {lit}`whole_eq_ok`: what a reader of a whole input accepts.
-/

namespace Mewtual

variable {ε ε' α β : Type} {reader : Reader ε α} {input left : Bytes} {value : α}

/-- The reader yields the value from the front of the input and leaves the rest. -/
def Accepts (reader : Reader ε α) (input : Bytes) (value : α) (left : Bytes) : Prop :=
  reader.run input = .ok (value, left)

/-- The bytes a reader consumes stand in a relation to the value it returns. -/
def Consumes (reader : Reader ε α) (P : α → Bytes → Prop) : Prop :=
  ∀ input value left, reader.run input = .ok (value, left) →
    ∃ front, input = front ++ left ∧ P value front

/-- The bytes a reader consumes are the ones the writer writes for its value. -/
def Spells (reader : Reader ε α) (put : α → Bytes) : Prop :=
  Consumes reader fun value front => front = put value

theorem Spells.of_accepts {put : α → Bytes}
    (h : ∀ {input value left}, Accepts reader input value left → input = put value ++ left) :
    Spells reader put :=
  fun _ value _ hrun => ⟨put value, h hrun, rfl⟩

@[simp] theorem accepts_pure {result : α} :
    Accepts (pure value : Reader ε α) input result left ↔ value = result ∧ input = left := by
  constructor
  · intro h
    cases h
    exact ⟨rfl, rfl⟩
  · rintro ⟨rfl, rfl⟩
    rfl

@[simp] theorem not_accepts_throw {error : ε} :
    ¬ Accepts (throw error : Reader ε α) input value left := nofun

@[simp] theorem accepts_get {found : Bytes} :
    Accepts (get : Reader ε Bytes) input found left ↔ input = found ∧ input = left := by
  change Accepts (pure input : Reader ε Bytes) input found left ↔ _
  exact accepts_pure

/-- The second of two readers goes on where the first one stopped. -/
@[simp] theorem accepts_bind {next : α → Reader ε β} {result : β} :
    Accepts (reader >>= next) input result left ↔
      ∃ value after, Accepts reader input value after ∧ Accepts (next value) after result left := by
  unfold Accepts
  rw [StateT.run_bind, bind_eq_ok, Prod.exists]

@[simp] theorem accepts_map {f : α → β} {result : β} :
    Accepts (f <$> reader) input result left ↔
      ∃ value, Accepts reader input value left ∧ f value = result := by
  rw [← bind_pure_comp]
  simp [-bind_pure_comp]

@[simp] theorem accepts_ite {cond : Prop} [Decidable cond] {other : Reader ε α} :
    Accepts (if cond then reader else other) input value left ↔
      cond ∧ Accepts reader input value left ∨ ¬ cond ∧ Accepts other input value left := by
  by_cases h : cond <;> simp [h]

/-- Behind the bytes of a value nothing else is read. -/
theorem Reads.accepts {bytes rest : Bytes} {found : α} (h : Reads reader bytes value) :
    Accepts reader (bytes ++ rest) found left ↔ value = found ∧ rest = left := by
  rw [Accepts, h rest, Except.ok.injEq, Prod.mk.injEq]

theorem reads_iff {bytes : Bytes} :
    Reads reader bytes value ↔ ∀ rest, Accepts reader (bytes ++ rest) value rest := Iff.rfl

theorem readsWhen_iff {bytes : Bytes} {valid : Prop} : ReadsWhen reader bytes valid value ↔
    ∀ rest found left, Accepts reader (bytes ++ rest) found left ↔
      valid ∧ value = found ∧ rest = left := by
  simp [ReadsWhen, Accepts, eq_comm]

theorem Reads.accepts_nil {bytes : Bytes} {found : α} (h : Reads reader bytes value) :
    Accepts reader bytes found left ↔ value = found ∧ [] = left := by
  rw [← List.append_nil bytes]
  exact h.accepts

/-! ## Readers around other computations -/

/-- Rename the errors of a reader. -/
def Reader.mapError (rename : ε → ε') (reader : Reader ε α) : Reader ε' α := fun input =>
  (reader.run input).mapError rename

/-- A check that reads nothing. -/
def Reader.check (result : Except ε α) : Reader ε α := fun input =>
  result.map fun value => (value, input)

@[simp] theorem accepts_mapError {rename : ε → ε'} :
    Accepts (reader.mapError rename) input value left ↔ Accepts reader input value left := by
  unfold Accepts
  change (reader.run input).mapError rename = _ ↔ _
  cases reader.run input with
  | error | ok => simp [Except.mapError]

@[simp] theorem accepts_check {outcome : Except ε α} :
    Accepts (Reader.check outcome) input value left ↔ outcome = .ok value ∧ input = left := by
  unfold Accepts
  change outcome.map _ = _ ↔ _
  cases outcome with
  | error | ok => simp [Except.map]

theorem Reads.mapError {bytes : Bytes} (rename : ε → ε') (h : Reads reader bytes value) :
    Reads (reader.mapError rename) bytes value :=
  fun rest => accepts_mapError.mpr (h rest)

/-- A check that passes lets the rest of the reader go on. -/
theorem Reader.run_check_bind {result : Except ε α} (h : result = .ok value)
    (next : α → Reader ε β) (input : Bytes) :
    (Reader.check result >>= next).run input = (next value).run input := by
  rw [h]
  rfl

/-- Read the whole input; bytes left behind are refused. -/
def Reader.whole (trailing : ε) (reader : Reader ε α) (bytes : Bytes) : Except ε α := do
  let (value, rest) ← reader.run bytes
  if rest ≠ [] then throw trailing
  pure value

theorem whole_eq_ok {trailing : ε} {bytes : Bytes} :
    reader.whole trailing bytes = .ok value ↔ Accepts reader bytes value [] := by
  unfold Reader.whole Accepts
  rw [bind_eq_ok, Prod.exists]
  constructor
  · rintro ⟨found, rest, hrun, hwhole⟩
    obtain ⟨hrest, hfound⟩ := guard_eq_ok.mp hwhole
    cases hfound
    rw [hrun, not_not.mp hrest]
  · intro hrun
    exact ⟨value, [], hrun, rfl⟩

theorem Reads.whole {bytes : Bytes} (h : Reads reader bytes value) (trailing : ε) :
    reader.whole trailing bytes = .ok value := by
  have hrun := h []
  rw [List.append_nil] at hrun
  exact whole_eq_ok.mpr hrun

/-! ## Fields in sequence -/

/-- A counted run of fields spells its list, and the list is as long as the count. -/
theorem accepts_times (put : α → Bytes) (P : α → Prop)
    (h : ∀ {input value left}, Accepts reader input value left ↔
      input = put value ++ left ∧ P value) {count : Nat} {values : List α} :
    Accepts (Reader.times reader count) input values left ↔
      input = values.flatMap put ++ left ∧ values.length = count ∧ ∀ value ∈ values, P value := by
  induction count generalizing input values with
  | zero => cases values <;> simp [Reader.times]
  | succ count ih =>
    cases values with
    | nil => simp [Reader.times]
    | cons head tail => simp [Reader.times, h, ih, and_assoc, and_left_comm]

end Mewtual
