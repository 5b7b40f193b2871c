import Mathlib.Data.List.Basic

/-!
# Updating the first match

A list as a small table: the first entry that matches is found, or changed in place.

Main results:

- Theorem {lit}`mem_updateFirst`: an entry of the result is an old one, or the changed first match.
- Theorem {lit}`exists_updateFirst`: every old entry is kept or changed.
-/

namespace Mewtual

variable {α β : Type} {matched : α → Bool} {entries : List α} {entry : α}

/-- Change the first entry that matches. -/
def updateFirst (matched : α → Bool) (change : α → α) : List α → List α
  | [] => []
  | entry :: entries =>
    if matched entry then change entry :: entries
    else entry :: updateFirst matched change entries

/-- The first match is an entry that matches. -/
theorem of_find?_decide {p : α → Prop} [DecidablePred p]
    (h : entries.find? (fun entry => decide (p entry)) = some entry) :
    entry ∈ entries ∧ p entry := by
  have hmatch := List.find?_some h
  exact ⟨List.mem_of_find?_eq_some h, of_decide_eq_true hmatch⟩

@[simp] theorem length_updateFirst (matched : α → Bool) (change : α → α) (entries : List α) :
    (updateFirst matched change entries).length = entries.length := by
  induction entries with
  | nil => rfl
  | cons entry entries ih =>
    unfold updateFirst
    split
    · rfl
    · rw [List.length_cons, List.length_cons, ih]

theorem mem_updateFirst {change : α → α} (h : entry ∈ updateFirst matched change entries) :
    entry ∈ entries ∨ ∃ old, entries.find? matched = some old ∧ entry = change old := by
  induction entries with
  | nil => exact .inl h
  | cons first entries ih =>
    unfold updateFirst at h
    by_cases hfirst : matched first = true
    · rw [if_pos hfirst] at h
      rcases List.mem_cons.mp h with rfl | hmem
      · exact .inr ⟨first, List.find?_cons_of_pos hfirst, rfl⟩
      · exact .inl (List.mem_cons_of_mem first hmem)
    · rw [if_neg hfirst] at h
      rcases List.mem_cons.mp h with rfl | hmem
      · exact .inl List.mem_cons_self
      · rw [List.find?_cons_of_neg hfirst]
        exact (ih hmem).imp_left (List.mem_cons_of_mem first)

/-- Every old entry is kept, or it is the first match and was changed. -/
theorem exists_updateFirst (change : α → α) (h : entry ∈ entries) :
    entry ∈ updateFirst matched change entries ∨
      (entries.find? matched = some entry ∧ change entry ∈ updateFirst matched change entries) := by
  induction entries with
  | nil => cases h
  | cons first entries ih =>
    unfold updateFirst
    by_cases hfirst : matched first = true
    · rw [if_pos hfirst]
      rcases List.mem_cons.mp h with rfl | hmem
      · exact .inr ⟨List.find?_cons_of_pos hfirst, List.mem_cons_self⟩
      · exact .inl (List.mem_cons_of_mem _ hmem)
    · rw [if_neg hfirst, List.find?_cons_of_neg hfirst]
      rcases List.mem_cons.mp h with rfl | hmem
      · exact .inl List.mem_cons_self
      · rcases ih hmem with hkept | ⟨hfound, hchanged⟩
        · exact .inl (List.mem_cons_of_mem first hkept)
        · exact .inr ⟨hfound, List.mem_cons_of_mem first hchanged⟩

/-- The first match is changed. -/
theorem change_mem_updateFirst (change : α → α) (h : entries.find? matched = some entry) :
    change entry ∈ updateFirst matched change entries := by
  induction entries with
  | nil => cases h
  | cons first entries ih =>
    unfold updateFirst
    by_cases hfirst : matched first = true
    · rw [List.find?_cons_of_pos hfirst] at h
      cases h
      simp [hfirst]
    · rw [List.find?_cons_of_neg hfirst] at h
      simp [hfirst, ih h]

/-- A field that no change touches is the same in every place. -/
theorem map_updateFirst {change : α → α} {field : α → β}
    (hfield : ∀ entry, field (change entry) = field entry) (entries : List α) :
    (updateFirst matched change entries).map field = entries.map field := by
  induction entries with
  | nil => rfl
  | cons entry entries ih =>
    unfold updateFirst
    split
    · rw [List.map_cons, List.map_cons, hfield]
    · rw [List.map_cons, List.map_cons, ih]

/-- Where at most one entry can match, updating the first match is updating every match. -/
theorem updateFirst_eq_map (change : α → α) {field : α → β}
    (hmatched :
      ∀ first second, matched first = true → matched second = true → field first = field second)
    (hnodup : (entries.map field).Nodup) :
    updateFirst matched change entries =
      entries.map fun entry => if matched entry then change entry else entry := by
  induction entries with
  | nil => rfl
  | cons entry entries ih =>
    rw [List.map_cons, List.nodup_cons] at hnodup
    unfold updateFirst
    rw [List.map_cons]
    by_cases hfirst : matched entry = true
    · rw [if_pos hfirst, if_pos hfirst]
      congr 1
      symm
      refine (List.map_congr_left fun later hlater => if_neg fun hagain => ?_).trans
        (List.map_id' _)
      apply hnodup.1
      rw [hmatched entry later hfirst hagain]
      exact List.mem_map_of_mem hlater
    · rw [if_neg hfirst, if_neg hfirst, ih hnodup.2]

end Mewtual
