import Mathlib.Data.List.Forall2
import Mathlib.Tactic.Basic

/-!
# Rules for fallible computations

The bind and guard rules that take a computation in {lit}`Except` apart. A fallible
function is peeled one check at a time: a failed check is the error it returns, and a
success carries the negation of every guard it passed.

Main results:

- Theorem {lit}`bind_eq_ok`: a sequence succeeds when both parts do.
- Theorem {lit}`guard_eq_ok`: a guarded computation succeeds past its guard.
-/

namespace Mewtual

variable {ε α β : Type}

@[simp] theorem ok_bind (value : α) (next : α → Except ε β) :
    (Except.ok value >>= next) = next value := rfl

@[simp] theorem error_bind (error : ε) (next : α → Except ε β) :
    (Except.error error >>= next) = Except.error error := rfl

/-- A sequence succeeds exactly when its first part does and the rest follows. -/
theorem bind_eq_ok {first : Except ε α} {next : α → Except ε β} {result : β} :
    (first >>= next) = .ok result ↔ ∃ value, first = .ok value ∧ next value = .ok result := by
  cases first with
  | error | ok => simp

/-- A computation behind a guard succeeds exactly when the guard lets it through. -/
theorem guard_eq_ok {guard : Prop} [Decidable guard] {error : ε} {next : Except ε α}
    {result : α} :
    (if guard then Except.error error else next) = .ok result ↔
      ¬ guard ∧ next = .ok result := by
  by_cases h : guard <;> simp [h]

/-- Nothing has to be shown of an absent value. -/
theorem forall_mem_none {P : α → Prop} : ∀ value ∈ (none : Option α), P value :=
  fun value hmem => absurd hmem (Option.not_mem_none value)

theorem forall_mem_some {P : α → Prop} {value : α} : (∀ found ∈ some value, P found) ↔ P value :=
  ⟨fun h => h value rfl, fun h _ hmem => Option.some.inj hmem ▸ h⟩

variable {compute : α → Except ε β} {list : List α}

/-- A check run over a list succeeds exactly when it does on every member. -/
theorem forM_eq_ok {check : α → Except ε Unit} :
    list.forM check = .ok () ↔ ∀ value ∈ list, check value = .ok () := by
  induction list with
  | nil => exact ⟨fun _ value hmem => absurd hmem List.not_mem_nil, fun _ => rfl⟩
  | cons head tail ih =>
    rw [List.forM, bind_eq_ok, List.forall_mem_cons]
    constructor
    · rintro ⟨⟨⟩, hhead, htail⟩
      exact ⟨hhead, ih.mp htail⟩
    · rintro ⟨hhead, htail⟩
      exact ⟨(), hhead, ih.mpr htail⟩

/-- A computation that succeeds on every member succeeds over the list. -/
theorem exists_mapM_eq_ok (h : ∀ value ∈ list, ∃ result, compute value = .ok result) :
    ∃ results, list.mapM compute = .ok results := by
  induction list with
  | nil => exact ⟨[], rfl⟩
  | cons head tail ih =>
    rcases h head (by simp) with ⟨first, hfirst⟩
    rcases ih fun value hmem => h value (by simp [hmem]) with ⟨rest, hrest⟩
    refine ⟨first :: rest, ?_⟩
    rw [List.mapM_cons, hfirst, ok_bind, hrest]
    rfl

/-- A computation over a list succeeds with one result for each member, in their order. -/
theorem mapM_eq_ok_iff {results : List β} :
    list.mapM compute = .ok results ↔
      List.Forall₂ (fun value result => compute value = .ok result) list results := by
  induction list generalizing results with
  | nil =>
    rw [List.forall₂_nil_left_iff]
    exact ⟨fun h => (Except.ok.inj h).symm, fun h => h ▸ rfl⟩
  | cons head tail ih =>
    rw [List.mapM_cons, List.forall₂_cons_left_iff]
    constructor
    · intro h
      obtain ⟨first, hfirst, h⟩ := bind_eq_ok.mp h
      obtain ⟨rest, hrest, h⟩ := bind_eq_ok.mp h
      exact ⟨first, rest, hfirst, ih.mp hrest, (Except.ok.inj h).symm⟩
    · rintro ⟨first, rest, hfirst, hrest, rfl⟩
      rw [hfirst, ok_bind, ih.mpr hrest]
      rfl

/-- A computation that has a known result on every member. -/
theorem mapM_eq_ok_map {f : α → β} (h : ∀ value ∈ list, compute value = .ok (f value)) :
    list.mapM compute = .ok (list.map f) := by
  rw [mapM_eq_ok_iff, List.forall₂_map_right_iff, List.forall₂_same]
  exact h

/-- A computation over a list that succeeded did so on every member. -/
theorem mem_of_mapM_eq_ok {results : List β} (h : list.mapM compute = .ok results) {value : α}
    (hmem : value ∈ list) : ∃ result ∈ results, compute value = .ok result := by
  induction mapM_eq_ok_iff.mp h with
  | nil => cases hmem
  | cons hfirst hrest ih =>
    rcases List.mem_cons.mp hmem with rfl | htail
    · exact ⟨_, List.mem_cons_self, hfirst⟩
    · obtain ⟨result, hresult, hcompute⟩ := ih (mapM_eq_ok_iff.mpr hrest) htail
      exact ⟨result, List.mem_cons_of_mem _ hresult, hcompute⟩

/-- Every result of a computation over a list is that of a member. -/
theorem exists_of_mem_mapM {results : List β} (h : list.mapM compute = .ok results) {result : β}
    (hmem : result ∈ results) : ∃ value ∈ list, compute value = .ok result := by
  induction mapM_eq_ok_iff.mp h with
  | nil => cases hmem
  | cons hfirst hrest ih =>
    rcases List.mem_cons.mp hmem with rfl | htail
    · exact ⟨_, List.mem_cons_self, hfirst⟩
    · obtain ⟨value, hvalue, hcompute⟩ := ih (mapM_eq_ok_iff.mpr hrest) htail
      exact ⟨value, List.mem_cons_of_mem _ hvalue, hcompute⟩

end Mewtual
