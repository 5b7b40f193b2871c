import Mathlib

/-!
# Values of an ordered map

Facts about the values an ordered map enumerates in key order: membership, what an
insertion at a fresh key adds, and that the values determine the map when each of them
knows its key.

Main results:

- Theorem {lit}`treeValues_insert_perm`: inserting at a fresh key adds one value.
- Theorem {lit}`pairwise_treeValues`: values that know their keys come out in key order.
- Theorem {lit}`eq_of_mem_treeValues`: values that know their keys determine the map.
-/

namespace Mewtual

open Std

variable {κ ν : Type} [Ord κ] [TransOrd κ]

/-- The values of a map in key order. -/
def treeValues (map : ExtTreeMap κ ν) : List ν := map.toList.map Prod.snd

@[simp] theorem length_treeValues (map : ExtTreeMap κ ν) :
    (treeValues map).length = map.size := by
  simp [treeValues]

@[simp] theorem treeValues_empty : treeValues (∅ : ExtTreeMap κ ν) = [] := rfl

variable [LawfulEqOrd κ]

theorem nodup_toList (map : ExtTreeMap κ ν) : map.toList.Nodup := by
  have hdistinct := ExtTreeMap.distinct_keys_toList (t := map)
  refine hdistinct.imp ?_
  rintro left right hne rfl
  exact hne ReflCmp.compare_self

variable {map : ExtTreeMap κ ν}

theorem mem_treeValues {value : ν} :
    value ∈ treeValues map ↔ ∃ key : κ, map[key]? = some value := by
  simp only [treeValues, List.mem_map, Prod.exists, exists_eq_right,
    ExtTreeMap.mem_toList_iff_getElem?_eq_some]

variable {key : κ} {keyOf : ν → κ}

omit [LawfulEqOrd κ] in
theorem mem_iff_getElem? : key ∈ map ↔ ∃ value : ν, map[key]? = some value := by
  rw [ExtTreeMap.mem_iff_isSome_getElem?, Option.isSome_iff_exists]

theorem getElem?_insert_self_or [DecidableEq κ] (key other : κ) (value : ν) :
    (map.insert key value)[other]? = if key = other then some value else map[other]? := by
  rw [ExtTreeMap.getElem?_insert]
  simp only [LawfulEqCmp.compare_eq_iff_eq]

theorem getElem?_erase_self_or [DecidableEq κ] (key other : κ) :
    (map.erase key)[other]? = if key = other then none else map[other]? := by
  rw [ExtTreeMap.getElem?_erase]
  simp only [LawfulEqCmp.compare_eq_iff_eq]

/-- What a map holds after an insertion is the inserted value or was there. -/
theorem of_getElem?_insert {other : κ} {value found : ν}
    (h : (map.insert key value)[other]? = some found) :
    (key = other ∧ value = found) ∨ map[other]? = some found := by
  rw [ExtTreeMap.getElem?_insert] at h
  split at h
  · exact .inl ⟨LawfulEqCmp.compare_eq_iff_eq.mp ‹_›, Option.some.inj h⟩
  · exact .inr h

/-- Filtering after an insertion at a fresh key adds at most that entry. -/
theorem size_filter_insert [DecidableEq κ] (value : ν) (hfresh : map[key]? = none)
    (keep : κ → ν → Bool) : ((map.insert key value).filter keep).size
      = (map.filter keep).size + if keep key value then 1 else 0 := by
  by_cases hkeep : keep key value = true
  · have heq : (map.insert key value).filter keep = (map.filter keep).insert key value := by
      apply ExtTreeMap.ext_getElem?
      intro other
      rw [ExtTreeMap.getElem?_filter', getElem?_insert_self_or, getElem?_insert_self_or,
        ExtTreeMap.getElem?_filter']
      by_cases h : key = other
      · rw [if_pos h, if_pos h, ← h]
        simp [hkeep]
      · simp [h]
    have habsent : (map.filter keep)[key]? = none := by
      rw [ExtTreeMap.getElem?_filter', hfresh]
      rfl
    rw [heq, ExtTreeMap.size_insert, ExtTreeMap.contains_eq_isSome_getElem?, habsent]
    simp [hkeep]
  · have heq : (map.insert key value).filter keep = map.filter keep := by
      apply ExtTreeMap.ext_getElem?
      intro other
      rw [ExtTreeMap.getElem?_filter', getElem?_insert_self_or, ExtTreeMap.getElem?_filter']
      by_cases h : key = other
      · rw [if_pos h, ← h, hfresh]
        simp [hkeep]
      · simp [h]
    simp [heq, hkeep]

/-- Inserting at a fresh key adds exactly one value. -/
theorem treeValues_insert_perm [DecidableEq κ] {v : ν} (hfresh : map[key]? = none) :
    (treeValues (map.insert key v)).Perm (v :: treeValues map) := by
  have hperm : (map.insert key v).toList.Perm ((key, v) :: map.toList) := by
    have hnotMem : (key, v) ∉ map.toList := by
      rw [ExtTreeMap.mem_toList_iff_getElem?_eq_some, hfresh]
      simp
    rw [List.perm_ext_iff_of_nodup (nodup_toList _)
      (List.nodup_cons.mpr ⟨hnotMem, nodup_toList map⟩)]
    rintro ⟨other, entry⟩
    rw [ExtTreeMap.mem_toList_iff_getElem?_eq_some, List.mem_cons,
      ExtTreeMap.mem_toList_iff_getElem?_eq_some, getElem?_insert_self_or]
    by_cases h : key = other
    · subst h
      simp [hfresh, eq_comm]
    · simp [h, Ne.symm h]
  exact hperm.map Prod.snd

/-- Erasing a key and inserting there again is one insertion. -/
theorem insert_erase [DecidableEq κ] (map : ExtTreeMap κ ν) (key : κ) (value : ν) :
    (map.erase key).insert key value = map.insert key value := by
  apply ExtTreeMap.ext_getElem?
  intro other
  rw [getElem?_insert_self_or, getElem?_insert_self_or]
  by_cases h : key = other
  · rw [if_pos h, if_pos h]
  · rw [if_neg h, if_neg h, getElem?_erase_self_or, if_neg h]

theorem insert_of_get [DecidableEq κ] {value : ν} (h : map[key]? = some value) :
    map.insert key value = map := by
  apply ExtTreeMap.ext_getElem?
  intro other
  rw [getElem?_insert_self_or]
  by_cases hkey : key = other
  · rw [if_pos hkey, ← hkey, h]
  · rw [if_neg hkey]

/-- An insertion exchanges the weight of the value it replaces for that of the new one. -/
theorem sum_treeValues_insert [DecidableEq κ] (map : ExtTreeMap κ ν) (key : κ) (value : ν)
    (weight : ν → Nat) :
    ((treeValues (map.insert key value)).map weight).sum + (map[key]?).elim 0 weight
      = ((treeValues map).map weight).sum + weight value := by
  cases hold : map[key]? with
  | none =>
    have hperm := (treeValues_insert_perm (v := value) hold).map weight
    rw [hperm.sum_eq]
    simp [Nat.add_comm]
  | some old =>
    have hfresh : (map.erase key)[key]? = none := by simp
    have hnew := (treeValues_insert_perm (v := value) hfresh).map weight
    have hback := (treeValues_insert_perm (v := old) hfresh).map weight
    rw [insert_erase] at hnew hback
    rw [insert_of_get hold] at hback
    rw [hnew.sum_eq, hback.sum_eq]
    simp only [Option.elim_some, List.map_cons, List.sum_cons]
    omega

/-- Values that know their keys are enumerated in strict key order. -/
theorem pairwise_treeValues
    (hkeyed : ∀ (key : κ) (value : ν), map[key]? = some value → keyOf value = key) :
    (treeValues map).Pairwise fun left right => compare (keyOf left) (keyOf right) = .lt := by
  rw [treeValues, List.pairwise_map]
  refine List.Pairwise.imp_of_mem ?_ (ExtTreeMap.ordered_keys_toList (t := map))
  rintro ⟨k, v⟩ ⟨k', v'⟩ hleft hright hlt
  rw [ExtTreeMap.mem_toList_iff_getElem?_eq_some] at hleft hright
  rwa [hkeyed k v hleft, hkeyed k' v' hright]

/-- Maps with the same entries are equal. -/
theorem treeMap_ext {left right : ExtTreeMap κ ν}
    (h : ∀ (key : κ) (value : ν), left[key]? = some value ↔ right[key]? = some value) :
    left = right := by
  apply ExtTreeMap.ext_getElem?
  intro key
  exact Option.ext fun value => h key value

/-- Values that know their keys are looked up there. -/
theorem getElem?_iff_mem
    (hkeyed : ∀ (key : κ) (value : ν), map[key]? = some value → keyOf value = key)
    {value : ν} : map[key]? = some value ↔ value ∈ treeValues map ∧ keyOf value = key := by
  rw [mem_treeValues]
  constructor
  · intro hmem
    exact ⟨⟨key, hmem⟩, hkeyed key value hmem⟩
  · rintro ⟨⟨other, hother⟩, rfl⟩
    rwa [hkeyed other value hother]

/-- A map whose values know their keys is determined by its values. -/
theorem eq_of_mem_treeValues {map built : ExtTreeMap κ ν}
    (hkeyed : ∀ (key : κ) (value : ν), map[key]? = some value → keyOf value = key)
    (hbuilt : ∀ (key : κ) (value : ν),
      built[key]? = some value ↔ value ∈ treeValues map ∧ keyOf value = key) : built = map := by
  apply treeMap_ext
  intro key value
  rw [hbuilt key value, getElem?_iff_mem hkeyed]

end Mewtual
