import Mewtual.Voice.LimitsRows

/-!
# What a member spends

The charges that a member was granted are paced by its three buckets, also when its row is forgotten
and opened again: a forgotten row was idle for a minute, and every bucket is full after that.

Main results:

- Theorem {lit}`Spending.chain`: a call keeps the pace of every meter.
-/

namespace Mewtual.Voice

open Std

namespace Meter

/-- The time that one token is worth. -/
def unit : Meter → Nat
  | .requester | .setup => 50
  | .room => 500

theorem rate_mul_unit (meter : Meter) : meter.rate * meter.unit = 1000 := by
  cases meter <;> rfl

/-- A bucket is full after a minute. -/
theorem unit_mul_burst_le (meter : Meter) : meter.unit * meter.burst ≤ retainMs := by
  cases meter <;> decide

/-- When a meter was charged. -/
def times (meter : Meter) (history : List (Nat × Act)) : List Nat :=
  (history.filter fun entry => charged entry.2 = some meter).map Prod.fst

theorem times_append (meter : Meter) (history later : List (Nat × Act)) :
    meter.times (history ++ later) = meter.times history ++ meter.times later := by
  unfold times
  rw [List.filter_append, List.map_append]

end Meter

/-- The actions of a call with its time. -/
def stamped (now : Nat) (acts : List Act) : List (Nat × Act) := acts.map fun act => (now, act)

@[simp] theorem stamped_nil (now : Nat) : stamped now [] = [] := rfl

theorem stamped_append (now : Nat) (acts later : List Act) :
    stamped now (acts ++ later) = stamped now acts ++ stamped now later :=
  List.map_append

/-- The granted charges of a member are paced by its row. -/
structure Spending (history : List (Nat × Act)) (now : Nat) (row : Row) : Prop where
  touched_le : ∀ record ∈ row, record.touched ≤ now
  last_le : ∀ record ∈ row, ∀ meter, (Meter.bucket meter record).last ≤ record.touched
  paced : ∀ meter : Meter,
    Paced meter.unit meter.burst (meter.times history) now (row.map meter.bucket)

namespace Spending

variable {history : List (Nat × Act)} {now : Nat} {row : Row}

theorem gone (h : ∀ meter : Meter,
    Paced meter.unit meter.burst (meter.times history) now none) : Spending history now none where
  touched_le := nofun
  last_le := nofun
  paced := h

theorem nil (now : Nat) : Spending [] now none :=
  gone fun meter => .nil meter.unit meter.burst now

theorem later (h : Spending history now row) {next : Nat} (hnext : now ≤ next) :
    Spending history next row where
  touched_le := fun record hrecord => (h.touched_le record hrecord).trans hnext
  last_le := h.last_le
  paced := fun meter => (h.paced meter).later hnext

/-- Joins and bindings do not matter. -/
theorem leaves {record after : Record} (h : Spending history now (some record))
    (hleaves : Meter.Leaves record after) : Spending history now (some after) where
  touched_le := by
    intro found hfound
    cases hfound
    rw [hleaves.1]
    exact h.touched_le record rfl
  last_le := by
    intro found hfound meter
    cases hfound
    rw [hleaves.1, hleaves.2]
    exact h.last_le record rfl meter
  paced := by
    intro meter
    have hpaced := h.paced meter
    rw [Option.map_some] at hpaced ⊢
    rw [hleaves.2]
    exact hpaced

theorem collect (h : Spending history now row) (live : CallLease → Bool) :
    Spending history now (row.collect live now) := by
  cases row with
  | none => exact h
  | some record =>
    rcases Row.collect_cases live now record with hkept | ⟨hgone, hidle, _⟩
    · rw [hkept]
      exact h.leaves (Meter.leaves_joins record record.joins _)
    · -- every bucket has been idle since the row was touched
      rw [hgone]
      refine gone fun meter => ?_
      have hlast := h.last_le record rfl meter
      have hfull := meter.unit_mul_burst_le
      refine Paced.forgotten (h.paced meter) ?_
      unfold retainMs at hfull hidle
      omega

theorem touch {record : Record} (h : Spending history now (some record)) :
    Spending history now (some (record.touch now)) where
  touched_le := by
    intro found hfound
    cases hfound
    have htouched := h.touched_le record rfl
    exact Nat.max_le.mpr ⟨htouched, Nat.le_refl now⟩
  last_le := by
    intro found hfound meter
    cases hfound
    have hlast := h.last_le record rfl meter
    have hmax : record.touched ≤ (record.touch now).touched := Nat.le_max_left _ _
    cases meter <;> exact hlast.trans hmax
  paced := by
    intro meter
    have hpaced := h.paced meter
    cases meter <;> exact hpaced

theorem fresh (h : Spending history now none) : Spending history now (some (.fresh now)) where
  touched_le := by
    intro found hfound
    cases hfound
    exact Nat.le_refl now
  last_le := by
    intro found hfound meter
    cases hfound
    cases meter <;> exact Nat.le_refl now
  paced := by
    intro meter
    have hopened := (h.paced meter).opened
    cases meter <;> exact hopened

theorem visit (h : Spending history now row) {credit : Except VoiceError Unit}
    {live : CallLease → Bool} {record : Record} (hvisit : row.visit credit live now = .ok record) :
    Spending history now (some record) := by
  have hcollect := h.collect live
  rcases Row.visit_cases hvisit with ⟨found, hfound, rfl⟩ | ⟨hnone, rfl⟩
  · rw [hfound] at hcollect
    exact hcollect.touch
  · rw [hnone] at hcollect
    exact hcollect.fresh

/-- The meter of an action gains its time if it is granted. -/
theorem times_act (meter : Meter) (history : List (Nat × Act)) (now : Nat) (act : Act) :
    meter.times (history ++ stamped now [act]) =
      meter.times history ++ (if Meter.charged act = some meter then [now] else []) := by
  rw [Meter.times_append]
  by_cases hcharged : Meter.charged act = some meter
  · simp [Meter.times, stamped, hcharged]
  · simp [Meter.times, stamped, hcharged]

section Action

variable {record : Record} {act : Act}

/-- What an action leaves if the meter it charges keeps its pace. -/
theorem apply (h : Spending history now (some record)) (htouched : now ≤ record.touched)
    {later : List (Nat × Act)}
    (hother : ∀ meter, Meter.charged act ≠ some meter → meter.times later = meter.times history)
    (hmeter : ∀ meter, Meter.charged act = some meter →
      Paced meter.unit meter.burst (meter.times later) now
        (some ((meter.bucket record).spend meter.rate meter.burst now).2)) :
    Spending later now (some (act.apply now record).2) where
  touched_le := by
    intro found hfound
    cases hfound
    rw [Meter.touched_apply]
    exact h.touched_le record rfl
  last_le := by
    intro found hfound meter
    cases hfound
    rw [Meter.touched_apply]
    by_cases hcharged : Meter.charged act = some meter
    · rw [(Meter.apply_of_charged hcharged now record).2]
      exact ((hmeter meter hcharged).last_le _ rfl).trans htouched
    · rw [Meter.bucket_apply_of_ne hcharged]
      exact h.last_le record rfl meter
  paced := by
    intro meter
    rw [Option.map_some]
    by_cases hcharged : Meter.charged act = some meter
    · rw [(Meter.apply_of_charged hcharged now record).2]
      exact hmeter meter hcharged
    · rw [Meter.bucket_apply_of_ne hcharged, hother meter hcharged]
      exact h.paced meter

theorem accepted (h : Spending history now (some record)) (hnow : now ≤ usizeMax)
    (htouched : now ≤ record.touched) (hok : (act.apply now record).1 = .ok ()) :
    Spending (history ++ stamped now [act]) now (some (act.apply now record).2) := by
  refine h.apply htouched (fun meter hcharged => ?_) (fun meter hcharged => ?_)
  · rw [times_act, if_neg hcharged, List.append_nil]
  · rw [times_act, if_pos hcharged]
    rw [(Meter.apply_of_charged hcharged now record).1] at hok
    refine Paced.spent meter.rate_mul_unit hnow (h.paced meter) ?_
    by_contra hunpaid
    rw [if_neg hunpaid] at hok
    cases hok

theorem refused (h : Spending history now (some record)) (hnow : now ≤ usizeMax)
    (htouched : now ≤ record.touched) {error : VoiceError}
    (herror : (act.apply now record).1 = .error error) :
    Spending history now (some (act.apply now record).2) := by
  refine h.apply htouched (fun meter hcharged => rfl) (fun meter hcharged => ?_)
  rw [(Meter.apply_of_charged hcharged now record).1] at herror
  refine Paced.refused meter.rate_mul_unit hnow (h.paced meter) ?_
  by_contra hpaid
  rw [if_pos (Bool.eq_true_of_not_eq_false hpaid)] at herror
  cases herror

end Action

/-- A call keeps the pace of every meter. -/
theorem chain {event : Event} {acts : List Act} {next : Row}
    (h : Spending history event.now row) (hchain : Chain event acts row next) :
    Spending (history ++ stamped event.now acts) event.now next := by
  refine hchain.follow
    (P := fun acts next => Spending (history ++ stamped event.now acts) event.now next)
    ?_ (fun view hnext => hnext.collect (event.live view)) (fun hvisit hnext => hnext.visit hvisit)
    (fun htouched hok hnext => ?_)
    (fun htouched herror hnext => hnext.refused event.now_le htouched herror)
  · rw [stamped_nil, List.append_nil]
    exact h
  · rw [stamped_append, ← List.append_assoc]
    exact hnext.accepted event.now_le htouched hok

theorem move {event : Event} {member : DeviceId} {acts : List Act} {next : Row}
    (h : Spending history event.now row) (hmove : Move event member acts row next) :
    Spending (history ++ stamped event.now acts) event.now next := by
  cases hmove with
  | retired hcall row =>
    rw [stamped_nil, List.append_nil]
    cases row with
    | none => exact h
    | some record => exact h.leaves (Meter.leaves_joins record record.joins _)
  | chain hchain => exact h.chain hchain

end Spending
end Mewtual.Voice
