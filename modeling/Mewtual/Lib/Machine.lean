import Mathlib.Algebra.Group.Nat.Defs
import Mathlib.Order.MinMax

/-!
# Machine integers as numbers

The saturating and checked operations of a 64-bit unsigned integer on its number. A
{lit}`usize` and a {lit}`u64` have the same width here.

Main results:

- Theorem {lit}`checkedAddNat_eq_some`: a checked sum is the sum.
-/

namespace Mewtual

/-- The largest machine word. -/
def usizeMax : Nat := 2 ^ 64 - 1

/-- Addition that stops at the largest word. -/
def saturatingAdd (left right : Nat) : Nat := min (left + right) usizeMax

/-- Multiplication that stops at the largest word. -/
def saturatingMul (left right : Nat) : Nat := min (left * right) usizeMax

/-- {lit}`u64::checked_add` on the numbers of two {lit}`u64`. -/
def checkedAddNat (left right : Nat) : Option Nat :=
  if left + right < 2 ^ 64 then some (left + right) else none

theorem checkedAddNat_eq_some {left right sum : Nat} (h : checkedAddNat left right = some sum) :
    sum = left + right := by
  unfold checkedAddNat at h
  split at h
  · exact (Option.some.inj h).symm
  · cases h

end Mewtual
