import Mathlib.Data.List.Sort

/-!
# Lists of half-open ranges

A list of ranges stands for the positions its members cover. Sorting, merging and dropping
ranges never cover a position that was not covered before.

Main results:

- Theorem {lit}`covers_mergeRanges`: merged ranges cover nothing new.
- Theorem {lit}`covers_broadest`: neither do the broadest of them.
-/

namespace Mewtual

/-- A half-open range of positions. -/
structure LogRange where
  start : Nat
  stop : Nat
  deriving DecidableEq, Repr

namespace LogRange

/-- The position lies in the range. -/
def Has (range : LogRange) (position : Nat) : Prop :=
  range.start ≤ position ∧ position < range.stop

/-- The order of the merge: by start, then by end. -/
def before (left right : LogRange) : Bool :=
  left.start < right.start ∨ (left.start = right.start ∧ left.stop ≤ right.stop)

/-- The order of the truncation: the broadest first, the earliest first on ties. -/
def broader (left right : LogRange) : Bool :=
  left.stop - left.start > right.stop - right.start ∨
    (left.stop - left.start = right.stop - right.start ∧ left.start ≤ right.start)

def earlier (left right : LogRange) : Bool := left.start ≤ right.start

end LogRange

/-- Some range of the list has the position. -/
def Covers (ranges : List LogRange) (position : Nat) : Prop :=
  ∃ range ∈ ranges, range.Has position

@[simp] theorem not_covers_nil (position : Nat) : ¬ Covers [] position := by
  simp [Covers]

@[simp] theorem covers_cons (range : LogRange) (ranges : List LogRange) (position : Nat) :
    Covers (range :: ranges) position ↔ range.Has position ∨ Covers ranges position := by
  simp [Covers]

@[simp] theorem covers_append (left right : List LogRange) (position : Nat) :
    Covers (left ++ right) position ↔ Covers left position ∨ Covers right position := by
  simp only [Covers, List.mem_append]
  constructor
  · rintro ⟨range, hmem | hmem, hhas⟩
    · exact .inl ⟨range, hmem, hhas⟩
    · exact .inr ⟨range, hmem, hhas⟩
  · rintro (⟨range, hmem, hhas⟩ | ⟨range, hmem, hhas⟩)
    · exact ⟨range, .inl hmem, hhas⟩
    · exact ⟨range, .inr hmem, hhas⟩

variable {position : Nat}

/-- Fewer ranges cover less. -/
theorem Covers.mono {small large : List LogRange}
    (h : Covers small position) (hsub : ∀ range ∈ small, range ∈ large) :
    Covers large position := by
  rcases h with ⟨range, hmem, hhas⟩
  exact ⟨range, hsub range hmem, hhas⟩

/-! ## Merging -/

/-- Extend the last written range while the next one touches it. -/
def mergeInto : LogRange → List LogRange → List LogRange
  | last, [] => [last]
  | last, next :: rest =>
    if last.stop ≥ next.start then mergeInto ⟨last.start, max last.stop next.stop⟩ rest
    else last :: mergeInto next rest

/-- Sort the ranges and merge those that touch. -/
def mergeRanges (ranges : List LogRange) : List LogRange :=
  match ranges.mergeSort LogRange.before with
  | [] => []
  | first :: rest => mergeInto first rest

/-- A range that touches the last one is joined to it without a gap. -/
theorem has_joined {last next : LogRange} (htouch : last.stop ≥ next.start)
    (h : LogRange.Has ⟨last.start, max last.stop next.stop⟩ position) :
    last.Has position ∨ next.Has position := by
  simp only [LogRange.Has] at h ⊢
  omega

theorem covers_mergeInto (last : LogRange) (rest : List LogRange)
    (h : Covers (mergeInto last rest) position) : Covers (last :: rest) position := by
  induction rest generalizing last with
  | nil => exact h
  | cons next rest ih =>
    unfold mergeInto at h
    split at h <;> rename_i htouch
    · have hjoined := ih _ h
      rw [covers_cons] at hjoined
      rw [covers_cons, covers_cons]
      rcases hjoined with hhas | hrest
      · rcases has_joined htouch hhas with hlast | hnext
        · exact .inl hlast
        · exact .inr (.inl hnext)
      · exact .inr (.inr hrest)
    · rw [covers_cons] at h ⊢
      rcases h with hlast | hrest
      · exact .inl hlast
      · exact .inr (ih next hrest)

/-- Merged ranges cover nothing new. -/
theorem covers_mergeRanges {ranges : List LogRange}
    (h : Covers (mergeRanges ranges) position) : Covers ranges position := by
  have hsorted : Covers (ranges.mergeSort LogRange.before) position := by
    unfold mergeRanges at h
    split at h <;> rename_i heq
    · exact absurd h (not_covers_nil position)
    · rw [heq]
      exact covers_mergeInto _ _ h
  exact hsorted.mono fun range hmem => List.mem_mergeSort.mp hmem

/-! ## Truncation -/

/-- The broadest ranges of a list, in the order of their starts. -/
def broadest (count : Nat) (ranges : List LogRange) : List LogRange :=
  ((ranges.mergeSort LogRange.broader).take count).mergeSort LogRange.earlier

theorem length_broadest_le (count : Nat) (ranges : List LogRange) :
    (broadest count ranges).length ≤ count := by
  simp [broadest]

/-- Dropping ranges covers nothing new. -/
theorem covers_broadest {count : Nat} {ranges : List LogRange}
    (h : Covers (broadest count ranges) position) : Covers ranges position :=
  h.mono fun _ hmem =>
    List.mem_mergeSort.mp (List.mem_of_mem_take (List.mem_mergeSort.mp hmem))

end Mewtual
