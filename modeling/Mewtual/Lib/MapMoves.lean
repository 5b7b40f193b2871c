import Mewtual.Lib.TreeMap

/-!
# Filling and splitting ordered maps

A map is filled from a list of entries, and split by moving listed keys from one map to another.

Main results:

- Theorem {lit}`getElem?_insertAll`: a list that gives each key one value fills the map with it.
- Theorems {lit}`getElem?_moveKeys_left` and {lit}`getElem?_moveKeys_right`: a listed key is found
  in the left map, every other key where it was.
- Theorem {lit}`size_moveKeys`: distinct keys of the right map add their number to the left one.
- Theorem {lit}`size_fill`: a left map is filled up to its limit before anything is left over.
-/

namespace Mewtual

open Std

variable {κ ν : Type} [Ord κ] [TransOrd κ]

/-! ## Filling -/

/-- Insert the entries in their order. -/
def insertAll (map : ExtTreeMap κ ν) (entries : List (κ × ν)) : ExtTreeMap κ ν :=
  entries.foldl (fun map entry => map.insert entry.1 entry.2) map

theorem insertAll_cons (map : ExtTreeMap κ ν) (entry : κ × ν) (entries : List (κ × ν)) :
    insertAll map (entry :: entries) = insertAll (map.insert entry.1 entry.2) entries := rfl

variable [LawfulEqOrd κ] [DecidableEq κ] {entries : List (κ × ν)} {map : ExtTreeMap κ ν}

omit [DecidableEq κ] in
/-- What is found was listed or was there before. -/
theorem mem_of_insertAll {key : κ} {value : ν} (h : (insertAll map entries)[key]? = some value) :
    (key, value) ∈ entries ∨ map[key]? = some value := by
  induction entries generalizing map with
  | nil => exact .inr h
  | cons entry entries ih =>
    rw [insertAll_cons] at h
    rcases ih h with hmem | hbefore
    · exact .inl (List.mem_cons_of_mem entry hmem)
    · rcases of_getElem?_insert hbefore with ⟨rfl, rfl⟩ | hbefore
      · exact .inl List.mem_cons_self
      · exact .inr hbefore

theorem isSome_insertAll {key : κ} {value : ν}
    (h : (key, value) ∈ entries ∨ map[key]? = some value) :
    ∃ found, (insertAll map entries)[key]? = some found := by
  induction entries generalizing map value with
  | nil =>
    rcases h with hmem | hbefore
    · cases hmem
    · exact ⟨value, hbefore⟩
  | cons entry entries ih =>
    rw [insertAll_cons]
    by_cases hkey : entry.1 = key
    · have hnew : (map.insert entry.1 entry.2)[key]? = some entry.2 := by
        rw [getElem?_insert_self_or, if_pos hkey]
      exact ih (.inr hnew)
    · rcases h with hmem | hbefore
      · rcases List.mem_cons.mp hmem with rfl | hmem
        · exact absurd rfl hkey
        · exact ih (.inl hmem)
      · have hkept : (map.insert entry.1 entry.2)[key]? = some value := by
          rw [getElem?_insert_self_or, if_neg hkey]
          exact hbefore
        exact ih (.inr hkept)

theorem getElem?_insertAll {key : κ}
    (hone : ∀ left right, (key, left) ∈ entries → (key, right) ∈ entries → left = right)
    {value : ν} :
    (insertAll (∅ : ExtTreeMap κ ν) entries)[key]? = some value ↔ (key, value) ∈ entries := by
  constructor
  · intro h
    rcases mem_of_insertAll h with hmem | hempty
    · exact hmem
    · simp at hempty
  · intro hmem
    obtain ⟨found, hfound⟩ : ∃ found, (insertAll (∅ : ExtTreeMap κ ν) entries)[key]? = some found :=
      isSome_insertAll (.inl hmem)
    rcases mem_of_insertAll hfound with hother | hempty
    · rw [hfound, hone found value hother hmem]
    · simp at hempty

/-! ## Splitting -/

/-- Move one key from the right map to the left one. -/
def moveKey (maps : ExtTreeMap κ ν × ExtTreeMap κ ν) (key : κ) :
    ExtTreeMap κ ν × ExtTreeMap κ ν :=
  match maps.2[key]? with
  | some value => (maps.1.insert key value, maps.2.erase key)
  | none => maps

def moveKeys (keys : List κ) (maps : ExtTreeMap κ ν × ExtTreeMap κ ν) :
    ExtTreeMap κ ν × ExtTreeMap κ ν :=
  keys.foldl moveKey maps

variable (maps : ExtTreeMap κ ν × ExtTreeMap κ ν)

omit [LawfulEqOrd κ] [DecidableEq κ] in
theorem moveKeys_cons (key : κ) (keys : List κ) :
    moveKeys (key :: keys) maps = moveKeys keys (moveKey maps key) := rfl

theorem getElem?_moveKey_right (key other : κ) :
    (moveKey maps key).2[other]? = if key = other then none else maps.2[other]? := by
  unfold moveKey
  split
  · exact getElem?_erase_self_or key other
  · rename_i hnone
    split
    · rename_i hkey
      rw [← hkey, hnone]
    · rfl

theorem getElem?_moveKey_left (key other : κ) :
    (moveKey maps key).1[other]? =
      if key = other then maps.2[other]?.or maps.1[other]? else maps.1[other]? := by
  unfold moveKey
  split
  · rename_i value hvalue
    dsimp only
    rw [getElem?_insert_self_or]
    split
    · rename_i hkey
      rw [← hkey, hvalue]
      rfl
    · rfl
  · rename_i hnone
    split
    · rename_i hkey
      rw [← hkey, hnone]
      rfl
    · rfl

theorem getElem?_moveKeys_right (keys : List κ) (other : κ) :
    (moveKeys keys maps).2[other]? = if other ∈ keys then none else maps.2[other]? := by
  induction keys generalizing maps with
  | nil => rfl
  | cons key keys ih =>
    rw [moveKeys_cons, ih, getElem?_moveKey_right]
    by_cases hkey : key = other
    · simp [hkey]
    · simp [hkey, Ne.symm hkey]

theorem getElem?_moveKeys_left (keys : List κ) (other : κ) :
    (moveKeys keys maps).1[other]? =
      if other ∈ keys then maps.2[other]?.or maps.1[other]? else maps.1[other]? := by
  induction keys generalizing maps with
  | nil => rfl
  | cons key keys ih =>
    rw [moveKeys_cons, ih, getElem?_moveKey_right, getElem?_moveKey_left]
    by_cases hkey : key = other
    · simp [hkey]
    · simp [hkey, Ne.symm hkey]

omit [LawfulEqOrd κ] [DecidableEq κ] in
theorem size_insert_of_none {key : κ} (h : map[key]? = none) (value : ν) :
    (map.insert key value).size = map.size + 1 := by
  rw [ExtTreeMap.size_insert, ExtTreeMap.contains_eq_isSome_getElem?, h]
  rfl

omit [LawfulEqOrd κ] [DecidableEq κ] in
theorem size_moveKey_le (key : κ) :
    (moveKey maps key).1.size ≤ maps.1.size + 1 := by
  unfold moveKey
  split
  · exact ExtTreeMap.size_insert_le
  · exact Nat.le_succ _

omit [LawfulEqOrd κ] [DecidableEq κ] in
theorem size_moveKeys_le (keys : List κ) :
    (moveKeys keys maps).1.size ≤ maps.1.size + keys.length := by
  induction keys generalizing maps with
  | nil => exact Nat.le_refl _
  | cons key keys ih =>
    have hkey := size_moveKey_le maps key
    have hkeys := ih (moveKey maps key)
    rw [moveKeys_cons, List.length_cons]
    omega

variable {maps}

theorem size_moveKeys {keys : List κ} (hdistinct : keys.Nodup)
    (hmem : ∀ key ∈ keys, maps.1[key]? = none ∧ ∃ value, maps.2[key]? = some value) :
    (moveKeys keys maps).1.size = maps.1.size + keys.length := by
  induction keys generalizing maps with
  | nil => rfl
  | cons key keys ih =>
    obtain ⟨hleft, value, hright⟩ := hmem key List.mem_cons_self
    obtain ⟨hfresh, hdistinct⟩ := List.nodup_cons.mp hdistinct
    have hkeys : ∀ other ∈ keys, (moveKey maps key).1[other]? = none ∧
        ∃ value, (moveKey maps key).2[other]? = some value := by
      intro other hother
      have hne : key ≠ other := fun hsame => hfresh (hsame ▸ hother)
      rw [getElem?_moveKey_left, getElem?_moveKey_right, if_neg hne, if_neg hne]
      exact hmem other (List.mem_cons_of_mem key hother)
    have hsize : (moveKey maps key).1.size = maps.1.size + 1 := by
      unfold moveKey
      rw [hright]
      exact size_insert_of_none hleft value
    rw [moveKeys_cons, ih hdistinct hkeys, hsize, List.length_cons]
    omega

/-- No key is in both maps. -/
def MapsDisjoint (maps : ExtTreeMap κ ν × ExtTreeMap κ ν) : Prop :=
  ∀ key : κ, maps.1[key]? = none ∨ maps.2[key]? = none

theorem moveKeys_disjoint (h : MapsDisjoint maps) (keys : List κ) :
    MapsDisjoint (moveKeys keys maps) := by
  intro key
  rw [getElem?_moveKeys_left, getElem?_moveKeys_right]
  by_cases hkey : key ∈ keys
  · rw [if_pos hkey, if_pos hkey]
    exact .inr rfl
  · rw [if_neg hkey, if_neg hkey]
    exact h key

/-- Every entry stays in one of the maps. -/
theorem moveKeys_or (h : MapsDisjoint maps) (keys : List κ) (key : κ) (value : ν) :
    ((moveKeys keys maps).1[key]? = some value ∨ (moveKeys keys maps).2[key]? = some value) ↔
      (maps.1[key]? = some value ∨ maps.2[key]? = some value) := by
  rw [getElem?_moveKeys_left, getElem?_moveKeys_right]
  by_cases hkey : key ∈ keys
  · rw [if_pos hkey, if_pos hkey]
    rcases h key with hnone | hnone
    · simp [hnone]
    · simp [hnone]
  · rw [if_neg hkey, if_neg hkey]

theorem moveKeys_keeps (h : MapsDisjoint maps) (keys : List κ) {key : κ} {value : ν}
    (hvalue : maps.1[key]? = some value) : (moveKeys keys maps).1[key]? = some value := by
  have hnone : maps.2[key]? = none := by
    rcases h key with hleft | hright
    · rw [hleft] at hvalue
      cases hvalue
    · exact hright
  rw [getElem?_moveKeys_left, hnone, hvalue]
  exact ite_self _

/-- Move the smallest keys as long as the left map is below a limit. -/
def fill (limit : Nat) (maps : ExtTreeMap κ ν × ExtTreeMap κ ν) :
    ExtTreeMap κ ν × ExtTreeMap κ ν :=
  moveKeys (maps.2.keys.take (limit - maps.1.size)) maps

theorem size_fill {limit : Nat} (h : MapsDisjoint maps) (hsize : maps.1.size ≤ limit) :
    (fill limit maps).1.size ≤ limit ∧
      ((fill limit maps).2 ≠ ∅ → (fill limit maps).1.size = limit) := by
  have hfresh : ∀ key ∈ maps.2.keys.take (limit - maps.1.size),
      maps.1[key]? = none ∧ ∃ value, maps.2[key]? = some value := by
    intro key hkey
    have hmem : key ∈ maps.2 := ExtTreeMap.mem_keys.mp (List.mem_of_mem_take hkey)
    obtain ⟨value, hvalue⟩ := mem_iff_getElem?.mp hmem
    refine ⟨(h key).resolve_right fun hnone => ?_, value, hvalue⟩
    rw [hnone] at hvalue
    cases hvalue
  have hmoved : (fill limit maps).1.size =
      maps.1.size + (maps.2.keys.take (limit - maps.1.size)).length :=
    size_moveKeys (List.Nodup.sublist (List.take_sublist _ _) ExtTreeMap.nodup_keys) hfresh
  rw [List.length_take] at hmoved
  refine ⟨by omega, fun hleft => ?_⟩
  -- a key that is left was not taken, so that as many were taken as there was room for
  obtain ⟨key, hkey⟩ : ∃ key, key ∈ (fill limit maps).2 := by
    by_contra hnone
    exact hleft (ExtTreeMap.eq_empty_iff_forall_not_mem.mpr fun key hkey => hnone ⟨key, hkey⟩)
  have hkept : key ∈ maps.2 ∧ key ∉ maps.2.keys.take (limit - maps.1.size) := by
    rw [ExtTreeMap.mem_iff_isSome_getElem?] at hkey ⊢
    unfold fill at hkey
    rw [getElem?_moveKeys_right] at hkey
    split at hkey
    · cases hkey
    · rename_i htaken
      exact ⟨hkey, htaken⟩
  have hlong : limit - maps.1.size < maps.2.keys.length := by
    by_contra hshort
    rw [List.take_of_length_le (Nat.not_lt.mp hshort)] at hkept
    exact hkept.2 (ExtTreeMap.mem_keys.mpr hkept.1)
  omega

/-! ## Sets -/

section Sets

variable {α : Type} [Ord α] [TransOrd α] [LawfulEqOrd α]

theorem mem_insert_or {set : ExtTreeSet α} {node other : α} :
    other ∈ set.insert node ↔ other = node ∨ other ∈ set := by
  rw [ExtTreeSet.mem_insert, LawfulEqCmp.compare_eq_iff_eq]
  exact or_congr_left eq_comm

theorem mem_erase_and {set : ExtTreeSet α} {node other : α} :
    other ∈ set.erase node ↔ other ≠ node ∧ other ∈ set := by
  rw [ExtTreeSet.mem_erase]
  exact and_congr_left fun _ => not_congr (LawfulEqCmp.compare_eq_iff_eq.trans eq_comm)

theorem nodup_setToList (set : ExtTreeSet α) : set.toList.Nodup := by
  refine ExtTreeSet.distinct_toList.imp fun hne hsame => hne ?_
  rw [hsame]
  exact ReflCmp.compare_self

theorem mem_ofList [DecidableEq α] {list : List α} {node : α} :
    node ∈ ExtTreeSet.ofList list compare ↔ node ∈ list := by
  rw [ExtTreeSet.mem_ofList, List.contains_iff_mem]

end Sets

end Mewtual
