import Mathlib.Data.List.Count
import Mathlib.Tactic.Linarith
import Mewtual.Lib.Machine
import Mewtual.Lib.Run

/-!
# Token buckets that may be forgotten

A bucket gains tokens at a rate per thousand units of time up to a burst, keeps the remainder of the
time it has not converted, and pays one token for each charge. A bucket that has been idle long
enough to be full may be forgotten and opened again later: the charges of any interval stay within
the burst and what the rate adds in it.

The argument weighs tokens and unconverted time together. The weight grows with time only, and a
charge takes a token's worth of it.

Main results:

- Theorem {lit}`Paced.spent`: a charge that is paid keeps the pace.
- Theorem {lit}`Paced.forgotten`: a bucket that is idle long enough may be forgotten.
- Theorem {lit}`Paced.count_le`: what is charged in any interval.
-/

namespace Mewtual

/-- Tokens, and the time up to which they have been added. -/
structure TokenBucket where
  last : Nat
  tokens : Nat
deriving DecidableEq, Repr

namespace TokenBucket

/-- A full bucket. -/
def new (now burst : Nat) : TokenBucket := ⟨now, burst⟩

/-- Add the tokens of the time that has passed; only the time converted to tokens is taken. -/
def refill (rate burst now : Nat) (bucket : TokenBucket) : TokenBucket :=
  let added := (now - bucket.last) * rate / 1000
  let consumed := added * 1000 / rate
  ⟨saturatingAdd bucket.last consumed, min (saturatingAdd bucket.tokens (min added burst)) burst⟩

/-- Pay one token if there is one. -/
def spend (rate burst now : Nat) (bucket : TokenBucket) : Bool × TokenBucket :=
  let filled := bucket.refill rate burst now
  if filled.tokens = 0 then (false, filled)
  else (true, ⟨filled.last, filled.tokens - 1⟩)

/-- Tokens and unconverted time in units of time, where a token is worth {lit}`unit`. A bucket that
was forgotten counts as full. -/
def weight (unit burst now : Nat) : Option TokenBucket → Nat
  | none => unit * burst
  | some bucket => unit * bucket.tokens + (now - bucket.last)

/-- What refilling does if a token is worth a whole number of units of time. -/
structure Refilled (unit burst now : Nat) (bucket filled : TokenBucket) : Prop where
  last_le : filled.last ≤ now
  remainder : now < filled.last + unit
  tokens_le : filled.tokens ≤ burst
  weight_le : weight unit burst now (some filled) ≤ weight unit burst now (some bucket)

theorem refill_spec {rate unit now : Nat} (burst : Nat) (hunit : rate * unit = 1000)
    (hnow : now ≤ usizeMax) {bucket : TokenBucket} (hlast : bucket.last ≤ now) :
    Refilled unit burst now bucket (bucket.refill rate burst now) := by
  have hrate : 0 < rate := Nat.pos_of_ne_zero fun hzero => by simp [hzero] at hunit
  have hpositive : 0 < unit := Nat.pos_of_ne_zero fun hzero => by simp [hzero] at hunit
  have hadded : (now - bucket.last) * rate / 1000 = (now - bucket.last) / unit := by
    rw [← hunit, Nat.mul_comm, Nat.mul_div_mul_left _ _ hrate]
  have hconsumed (added : Nat) : added * 1000 / rate = added * unit := by
    rw [← hunit, Nat.mul_left_comm, Nat.mul_div_cancel_left _ hrate]
  have hdivided : (now - bucket.last) / unit * unit ≤ now - bucket.last :=
    Nat.div_mul_le_self _ _
  have hremainder : now - bucket.last < (now - bucket.last) / unit * unit + unit := by
    have hlt := Nat.lt_div_mul_add hpositive (a := now - bucket.last)
    exact hlt
  have hexact : saturatingAdd bucket.last ((now - bucket.last) / unit * unit) =
      bucket.last + (now - bucket.last) / unit * unit := by
    unfold saturatingAdd
    omega
  unfold refill
  dsimp only
  rw [hadded, hconsumed, hexact]
  refine ⟨?_, ?_, Nat.min_le_right _ _, ?_⟩
  · dsimp only
    omega
  · dsimp only
    omega
  · have htokens :
      min (saturatingAdd bucket.tokens (min ((now - bucket.last) / unit) burst)) burst ≤
        bucket.tokens + (now - bucket.last) / unit := by
      unfold saturatingAdd
      omega
    have hscaled := Nat.mul_le_mul_left unit htokens
    rw [Nat.mul_add, Nat.mul_comm unit ((now - bucket.last) / unit)] at hscaled
    dsimp only [weight]
    omega

end TokenBucket

/-! ## Charges over time -/

open TokenBucket

/-- The charges at some times were paid by a bucket, which may have been forgotten in between. -/
structure Paced (unit burst : Nat) (times : List Nat) (now : Nat) (bucket : Option TokenBucket) :
    Prop where
  past : ∀ time ∈ times, time ≤ now
  last_le : ∀ found ∈ bucket, found.last ≤ now
  tokens_le : ∀ found ∈ bucket, found.tokens ≤ burst
  recent : ∀ start, 0 < times.countP (start ≤ ·) →
    unit * times.countP (start ≤ ·) + weight unit burst now bucket + start <
      unit * burst + unit + now
  windows : ∀ start width, 0 < unit →
    unit * times.countP (fun time => start ≤ time ∧ time ≤ start + width) <
      unit * burst + unit + width

namespace Paced

variable {rate unit burst now : Nat} {times : List Nat}

theorem nil (unit burst now : Nat) : Paced unit burst [] now none where
  past := nofun
  last_le := nofun
  tokens_le := nofun
  recent := fun start hpos => by simp at hpos
  windows := fun start width hunit => by
    rw [List.countP_nil]
    omega

/-- Time passes. -/
theorem later {bucket : Option TokenBucket} (h : Paced unit burst times now bucket) {later : Nat}
    (hlater : now ≤ later) : Paced unit burst times later bucket := { h with
  past := fun time htime => (h.past time htime).trans hlater
  last_le := fun found hfound => (h.last_le found hfound).trans hlater
  recent := by
    intro start hpos
    have hrecent := h.recent start hpos
    have hweight : weight unit burst later bucket ≤
        weight unit burst now bucket + (later - now) := by
      cases bucket with
      | none => exact Nat.le_add_right _ _
      | some found =>
        have hlast := h.last_le found rfl
        dsimp only [weight]
        omega
    omega }

/-- A bucket is exchanged for one that weighs no more. -/
theorem exchange {bucket other : Option TokenBucket} (h : Paced unit burst times now bucket)
    (hlast : ∀ found ∈ other, found.last ≤ now) (htokens : ∀ found ∈ other, found.tokens ≤ burst)
    (hweight : weight unit burst now other ≤ weight unit burst now bucket) :
    Paced unit burst times now other := { h with
  last_le := hlast
  tokens_le := htokens
  recent := by
    intro start hpos
    have hrecent := h.recent start hpos
    omega }

/-- A bucket is opened. -/
theorem opened (h : Paced unit burst times now none) :
    Paced unit burst times now (some (.new now burst)) := by
  refine h.exchange (fun found hfound => ?_) (fun found hfound => ?_) ?_
  · cases hfound
    exact Nat.le_refl _
  · cases hfound
    exact Nat.le_refl _
  · dsimp only [weight, TokenBucket.new]
    omega

/-- A bucket that was idle long enough to be full may be forgotten. -/
theorem forgotten {bucket : TokenBucket} (h : Paced unit burst times now (some bucket))
    (hidle : bucket.last + unit * burst ≤ now) : Paced unit burst times now none := by
  refine h.exchange nofun nofun ?_
  dsimp only [weight]
  omega

/-- A charge that is not paid. -/
theorem refused (hunit : rate * unit = 1000) (hnow : now ≤ usizeMax) {bucket : TokenBucket}
    (h : Paced unit burst times now (some bucket))
    (hrefused : (bucket.spend rate burst now).1 = false) :
    Paced unit burst times now (some (bucket.spend rate burst now).2) := by
  have hfilled := refill_spec burst hunit hnow (h.last_le bucket rfl)
  have hspend : (bucket.spend rate burst now).2 = bucket.refill rate burst now := by
    unfold spend at hrefused ⊢
    dsimp only at hrefused ⊢
    split at hrefused
    · rename_i hzero
      rw [if_pos hzero]
    · cases hrefused
  rw [hspend]
  refine h.exchange (fun found hfound => ?_) (fun found hfound => ?_) hfilled.weight_le
  · cases hfound
    exact hfilled.last_le
  · cases hfound
    exact hfilled.tokens_le

/-- A charge that is paid. -/
theorem spent (hunit : rate * unit = 1000) (hnow : now ≤ usizeMax) {bucket : TokenBucket}
    (h : Paced unit burst times now (some bucket))
    (hpaid : (bucket.spend rate burst now).1 = true) :
    Paced unit burst (times ++ [now]) now (some (bucket.spend rate burst now).2) := by
  have hfilled := refill_spec burst hunit hnow (h.last_le bucket rfl)
  obtain ⟨htokens, hspend⟩ : (bucket.refill rate burst now).tokens ≠ 0 ∧
      (bucket.spend rate burst now).2 = ⟨(bucket.refill rate burst now).last,
        (bucket.refill rate burst now).tokens - 1⟩ := by
    unfold spend at hpaid ⊢
    dsimp only at hpaid ⊢
    split at hpaid
    · cases hpaid
    · rename_i hzero
      rw [if_neg hzero]
      exact ⟨hzero, rfl⟩
  rw [hspend]
  generalize bucket.refill rate burst now = filled at hfilled htokens
  -- the token that is paid is worth as much as the charge weighs
  have hworth : unit * (filled.tokens - 1) + unit = unit * filled.tokens := by
    obtain ⟨rest, hrest⟩ := Nat.exists_eq_succ_of_ne_zero htokens
    rw [hrest, Nat.succ_sub_one, Nat.mul_succ]
  have hcapped : unit * filled.tokens ≤ unit * burst := Nat.mul_le_mul_left unit hfilled.tokens_le
  have hweight := hfilled.weight_le
  have hremainder := hfilled.remainder
  have hlast := hfilled.last_le
  dsimp only [weight] at hweight
  have hrecent : ∀ start, start ≤ now →
      unit * (times.countP (start ≤ ·) + 1) + (unit * (filled.tokens - 1) + (now - filled.last)) +
        start < unit * burst + unit + now := by
    intro start hstart
    rw [Nat.mul_add, Nat.mul_one]
    rcases Nat.eq_zero_or_pos (times.countP (start ≤ ·)) with hzero | hpos
    · rw [hzero, Nat.mul_zero]
      omega
    · have hbefore := h.recent start hpos
      dsimp only [weight] at hbefore
      omega
  refine ⟨forall_mem_concat h.past (Nat.le_refl now), fun found hfound => ?_,
    fun found hfound => ?_, fun start hpos => ?_, fun start width hpositive => ?_⟩
  · cases hfound
    exact hlast
  · cases hfound
    have hle := hfilled.tokens_le
    dsimp only
    omega
  · rw [List.countP_append, List.countP_singleton] at hpos ⊢
    by_cases hstart : start ≤ now
    · rw [if_pos (decide_eq_true hstart)]
      exact hrecent start hstart
    · have hnone : times.countP (start ≤ ·) = 0 := by
        rw [List.countP_eq_zero]
        intro time htime hle
        exact hstart ((of_decide_eq_true hle).trans (h.past time htime))
      rw [hnone, if_neg (fun htrue => hstart (of_decide_eq_true htrue))] at hpos
      cases hpos
  · rw [List.countP_append, List.countP_singleton]
    by_cases hinside : start ≤ now ∧ now ≤ start + width
    · -- every earlier charge from the start on is inside the interval as well
      have hcount : times.countP (fun time => start ≤ time ∧ time ≤ start + width) ≤
          times.countP (start ≤ ·) := by
        refine List.countP_mono_left fun time _ htime => ?_
        exact decide_eq_true (of_decide_eq_true htime).1
      have hmul := Nat.mul_le_mul_left unit (Nat.add_le_add_right hcount 1)
      have hbound := hrecent start hinside.1
      rw [if_pos (decide_eq_true hinside)]
      omega
    · rw [if_neg (fun htrue => hinside (of_decide_eq_true htrue)), Nat.add_zero]
      exact h.windows start width hpositive

/-- An interval carries at most the burst and what the rate adds in it. -/
theorem count_le (hunit : rate * unit = 1000) {bucket : Option TokenBucket}
    (h : Paced unit burst times now bucket) (start width : Nat) :
    times.countP (fun time => start ≤ time ∧ time ≤ start + width) ≤
      burst + (rate * width + 999) / 1000 := by
  have hpositive : 0 < unit := Nat.pos_of_ne_zero fun hzero => by simp [hzero] at hunit
  have hrate : 0 < rate := Nat.pos_of_ne_zero fun hzero => by simp [hzero] at hunit
  have hwindow := h.windows start width hpositive
  generalize times.countP (fun time => start ≤ time ∧ time ≤ start + width) = count at hwindow ⊢
  have hscaled : rate * (unit * count) < rate * (unit * burst + unit + width) :=
    Nat.mul_lt_mul_of_pos_left hwindow hrate
  rw [← Nat.mul_assoc, Nat.mul_add, Nat.mul_add, ← Nat.mul_assoc, hunit] at hscaled
  omega

end Paced
end Mewtual
