import Mathlib.Algebra.BigOperators.Group.List.Basic
import Mathlib.Tactic.Linarith
import Mewtual.Lib.Run

/-!
# Fixed rate windows

A meter that charges amounts to a row. The row is opened by the first charge, lives for a fixed
width of time and refuses what would exceed its limit; after it has expired the next charge opens
a new row. Two rows can meet inside one interval of the width, so such an interval carries at most
twice the limit.

Main results:

- Theorem {lit}`Metered.charge`: a charge that the row allows is metered.
- Theorem {lit}`Metered.spent_le`: an interval of the width carries at most twice the limit.
-/

namespace Mewtual

/-- A row of a meter: when it expires and what it has been charged. -/
structure Window where
  expires : Nat
  used : Nat
  deriving DecidableEq, Repr

/-- Times and amounts, in the order in which they were charged. -/
abbrev Charges := List (Nat × Nat)

/-- Everything charged. -/
def Charges.total (charges : Charges) : Nat := (charges.map Prod.snd).sum

/-- What was charged from a time on. -/
def Charges.since (charges : Charges) (start : Nat) : Nat :=
  Charges.total (charges.filter fun charge => start ≤ charge.1)

/-- What was charged in the half-open interval. -/
def Charges.spent (charges : Charges) (start stop : Nat) : Nat :=
  Charges.total (charges.filter fun charge => start ≤ charge.1 ∧ charge.1 < stop)

namespace Charges

theorem total_append (left right : Charges) :
    Charges.total (left ++ right) = Charges.total left + Charges.total right := by
  simp [total]

theorem since_append (left right : Charges) (start : Nat) :
    Charges.since (left ++ right) start = Charges.since left start + Charges.since right start := by
  simp [since, total_append]

theorem spent_append (left right : Charges) (start stop : Nat) :
    Charges.spent (left ++ right) start stop
      = Charges.spent left start stop + Charges.spent right start stop := by
  simp [spent, total_append]

theorem total_filter_le (charges : Charges) (keep : Nat × Nat → Bool) :
    Charges.total (charges.filter keep) ≤ Charges.total charges := by
  induction charges with
  | nil => simp
  | cons charge charges ih =>
    by_cases hkeep : keep charge = true
    · rw [List.filter_cons_of_pos hkeep]
      simp only [total, List.map_cons, List.sum_cons] at ih ⊢
      omega
    · rw [List.filter_cons_of_neg hkeep]
      simp only [total, List.map_cons, List.sum_cons] at ih ⊢
      omega

theorem since_le_total (charges : Charges) (start : Nat) :
    charges.since start ≤ charges.total :=
  total_filter_le charges _

theorem spent_le_total (charges : Charges) (start stop : Nat) :
    charges.spent start stop ≤ charges.total :=
  total_filter_le charges _

theorem spent_le_since (charges : Charges) (start stop : Nat) :
    charges.spent start stop ≤ charges.since start := by
  have hfilter : charges.filter (fun charge => start ≤ charge.1 ∧ charge.1 < stop)
      = (charges.filter fun charge => start ≤ charge.1).filter fun charge => charge.1 < stop := by
    simp [List.filter_filter, Bool.and_comm]
  rw [spent, since, hfilter]
  exact total_filter_le _ _

theorem total_filter_eq_zero {charges : Charges} {keep : Nat × Nat → Bool}
    (h : ∀ charge ∈ charges, ¬ keep charge) : Charges.total (charges.filter keep) = 0 := by
  rw [List.filter_eq_nil_iff.mpr h]
  rfl

theorem since_eq_zero {charges : Charges} {start : Nat}
    (h : ∀ charge ∈ charges, charge.1 < start) : charges.since start = 0 := by
  refine total_filter_eq_zero fun charge hmem => ?_
  have hlt := h charge hmem
  simp only [decide_eq_true_eq]
  omega

theorem spent_eq_zero {charges : Charges} {start stop : Nat}
    (h : ∀ charge ∈ charges, stop ≤ charge.1) : charges.spent start stop = 0 := by
  refine total_filter_eq_zero fun charge hmem => ?_
  have hle := h charge hmem
  simp only [decide_eq_true_eq]
  omega

end Charges

/-- Charges split into those of earlier rows and those of the row opened at {lit}`opened`. -/
structure Split (width limit opened : Nat) (old current : Charges) : Prop where
  old_lt : ∀ charge ∈ old, charge.1 < opened
  current_ge : ∀ charge ∈ current, opened ≤ charge.1
  current_lt : ∀ charge ∈ current, charge.1 < opened + width
  current_le : current.total ≤ limit
  /-- Less than one width before the row was opened, only one earlier row was charged. -/
  recent : ∀ start, opened < start + width → old.since start ≤ limit
  spent : ∀ start, old.spent start (start + width) ≤ 2 * limit

namespace Split

variable {width limit opened : Nat} {old current : Charges}

section

variable (h : Split width limit opened old current)

include h

/-- No interval of the width reaches more than two rows. -/
theorem spent_le (start : Nat) :
    Charges.spent (old ++ current) start (start + width) ≤ 2 * limit := by
  rw [Charges.spent_append]
  by_cases hnear : opened < start + width
  · have hold := (old.spent_le_since start (start + width)).trans (h.recent start hnear)
    have hcurrent := (current.spent_le_total start (start + width)).trans h.current_le
    omega
  · have hcurrent : current.spent start (start + width) = 0 := by
      apply Charges.spent_eq_zero
      intro charge hmem
      exact (Nat.not_lt.mp hnear).trans (h.current_ge charge hmem)
    have hold := h.spent start
    omega

/-- One more charge in the open row. -/
theorem charge {now amount : Nat}
    (hopened : opened ≤ now) (hlive : now < opened + width)
    (hlimit : current.total + amount ≤ limit) :
    Split width limit opened old (current ++ [(now, amount)]) := { h with
  current_ge := forall_mem_concat h.current_ge hopened
  current_lt := forall_mem_concat h.current_lt hlive
  current_le := by
    rw [Charges.total_append]
    simpa [Charges.total] using hlimit }

/-- A charge that opens the next row. -/
theorem reopen {now amount : Nat}
    (hexpired : opened + width ≤ now) (hwidth : 0 < width) (hlimit : amount ≤ limit) :
    Split width limit now (old ++ current) [(now, amount)] where
  old_lt := by
    intro charge hmem
    rcases List.mem_append.mp hmem with hold | hcurrent
    · have hlt := h.old_lt charge hold
      omega
    · have hlt := h.current_lt charge hcurrent
      omega
  current_ge := by simp
  current_lt := by simpa using hwidth
  current_le := by simpa [Charges.total] using hlimit
  recent := by
    intro start hnear
    have hold : old.since start = 0 := by
      apply Charges.since_eq_zero
      intro charge hmem
      have hlt := h.old_lt charge hmem
      omega
    rw [Charges.since_append, hold, Nat.zero_add]
    exact (current.since_le_total start).trans h.current_le
  spent := h.spent_le

end

end Split

/-- What a row at a given time says about everything charged so far. -/
structure Metered (width limit : Nat) (charges : Charges) (row : Option Window) (now : Nat) :
    Prop where
  split : charges ≠ [] → ∃ opened old current, charges = old ++ current ∧
    Split width limit opened old current ∧ opened ≤ now ∧
    (row = none → opened + width ≤ now) ∧
    ∀ window ∈ row, window.expires = opened + width ∧ window.used = current.total
  row_eq : charges = [] → row = none

namespace Metered

variable {width limit now : Nat} {charges : Charges} {row : Option Window}

theorem nil (width limit now : Nat) : Metered width limit [] none now where
  split := fun h => absurd rfl h
  row_eq := fun _ => rfl

section

variable (h : Metered width limit charges row now)

include h

/-- An interval of the width carries at most twice the limit. -/
theorem spent_le (start : Nat) :
    charges.spent start (start + width) ≤ 2 * limit := by
  by_cases hempty : charges = []
  · rw [hempty]
    exact Nat.zero_le _
  · rcases h.split hempty with ⟨opened, old, current, rfl, hsplit, -⟩
    exact hsplit.spent_le start

/-- Time passes and expired rows are dropped. -/
theorem expire {later : Nat} (hlater : now ≤ later) :
    Metered width limit charges (row.filter fun window => later < window.expires) later where
  split := by
    intro hne
    rcases h.split hne with ⟨opened, old, current, heq, hsplit, hopened, hnone, hrow⟩
    refine ⟨opened, old, current, heq, hsplit, hopened.trans hlater, ?_, ?_⟩
    · intro hfilter
      cases hold : row with
      | none => exact (hnone hold).trans hlater
      | some window =>
        rw [hold] at hfilter
        have hexpires := (hrow window hold).1
        simp only [Option.filter_eq_none_iff, Option.some.injEq,
          decide_eq_true_eq, forall_eq'] at hfilter
        omega
    · intro window hmem
      exact hrow window (Option.filter_eq_some_iff.mp hmem).1
  row_eq := by
    intro hempty
    rw [h.row_eq hempty]
    rfl

/-- A charge that the live row allows, or that opens a row, is metered. -/
theorem charge (hwidth : 0 < width) {amount : Nat}
    (hlive : ∀ window ∈ row, now < window.expires)
    (hallowed : ((row.map Window.used).getD 0) + amount ≤ limit) :
    Metered width limit (charges ++ [(now, amount)])
      (some ⟨(row.map Window.expires).getD (now + width), (row.map Window.used).getD 0 + amount⟩)
      now where
  split := by
    intro _
    by_cases hempty : charges = []
    · rw [hempty, h.row_eq hempty]
      rw [h.row_eq hempty] at hallowed
      refine ⟨now, [], [(now, amount)], rfl, ?_, Nat.le_refl _, by simp, ?_⟩
      · refine ⟨by simp, by simp, by simpa using hwidth, ?_, ?_, ?_⟩
        · simpa [Charges.total] using hallowed
        · exact fun start _ => Nat.zero_le _
        · exact fun start => Nat.zero_le _
      · simp [Charges.total]
    · rcases h.split hempty with ⟨opened, old, current, rfl, hsplit, hopened, hnone, hrow⟩
      cases hold : row with
      | none =>
        rw [hold] at hallowed
        have hamount : amount ≤ limit := by simpa using hallowed
        refine ⟨now, old ++ current, [(now, amount)], rfl,
          hsplit.reopen (hnone hold) hwidth hamount, Nat.le_refl _, by simp, ?_⟩
        simp [Charges.total]
      | some window =>
        rcases hrow window hold with ⟨hexpires, hused⟩
        have hnow := hlive window hold
        rw [hold] at hallowed
        have htotal : current.total + amount ≤ limit := by simpa [hused] using hallowed
        refine ⟨opened, old, current ++ [(now, amount)], by simp,
          hsplit.charge hopened (hexpires ▸ hnow) htotal, hopened, by simp, ?_⟩
        simp [hexpires, hused, Charges.total]
  row_eq := by simp

end

end Metered

end Mewtual
