import Mewtual.Lib.TreeMap

/-!
# Deny windows

A deny map gives each denied key the millisecond stamp its window ends at. It is bounded: at its
cap a new key first drops the expired entries and then, if that frees nothing, the entry closest
to expiry.

A hash map iterates in an order of its own, so which of several entries with the least stamp is
met first is an input of the model, the number {lit}`tie`.

Main results:

- Theorems {lit}`DenyMap.kept_denyIn`, {lit}`DenyMap.kept_retain`: a window is never shortened; an
  entry that goes was expired or had the least stamp of all live entries of a full map.
- Theorem {lit}`DenyMap.size_denyIn_le`: the map stays within a positive cap.
-/

namespace Mewtual
namespace Net

open Std

/-- Deny windows by key, expiring at an absolute millisecond stamp. -/
abbrev DenyMap (κ : Type) [Ord κ] := ExtTreeMap κ Nat

namespace DenyMap

variable {κ : Type} [Ord κ] [TransOrd κ]

/-- {lit}`map.retain(|_, until| *until > now_ms)`. -/
def retain (map : DenyMap κ) (nowMs : Nat) : DenyMap κ :=
  map.filter fun _ stamp => decide (nowMs < stamp)

/-- The entries whose stamp no other entry undercuts. -/
def leastEntries (map : DenyMap κ) : List (κ × Nat) :=
  map.toList.filter fun entry => map.toList.all fun other => entry.2 ≤ other.2

/-- {lit}`map.iter().min_by_key(|(_, u)| **u)`: the first least entry in iteration order. -/
def soonest (map : DenyMap κ) (tie : Nat) : Option κ :=
  (map.leastEntries[tie % map.leastEntries.length]?).map Prod.fst

/-- Drop the entry closest to expiry. -/
def evict (map : DenyMap κ) (tie : Nat) : DenyMap κ :=
  match map.soonest tie with
  | some key => map.erase key
  | none => map

/-- The map a new key is inserted into: at the cap expired entries go, and then one more if it is
still full. -/
def makeRoom (map : DenyMap κ) (nowMs cap tie : Nat) : DenyMap κ :=
  let map := if cap ≤ map.size then map.retain nowMs else map
  if cap ≤ map.size then map.evict tie else map

/-- Insert or extend a deny window, keeping the map bounded. -/
def denyIn (map : DenyMap κ) (key : κ) (stamp nowMs cap tie : Nat) : DenyMap κ :=
  match map[key]? with
  | some slot => map.insert key (max slot stamp)
  | none => (map.makeRoom nowMs cap tie).insert key stamp

/-- The end of the key's window, if the window is still running. -/
def running (map : DenyMap κ) (key : κ) (nowMs : Nat) : Option Nat :=
  (map[key]?).filter fun stamp => nowMs < stamp

/-! ## What each operation keeps -/

theorem size_retain_le (map : DenyMap κ) (nowMs : Nat) : (map.retain nowMs).size ≤ map.size :=
  ExtTreeMap.size_filter_le_size

variable [LawfulEqOrd κ] {map : DenyMap κ} {key : κ} {stamp : Nat}

theorem get_retain {nowMs : Nat} :
    (map.retain nowMs)[key]? = some stamp ↔ map[key]? = some stamp ∧ nowMs < stamp := by
  unfold retain
  rw [ExtTreeMap.getElem?_filter', Option.filter_eq_some_iff]
  simp

theorem get_retain_none {nowMs : Nat} (h : map[key]? = some stamp) (hexpired : ¬nowMs < stamp) :
    (map.retain nowMs)[key]? = none := by
  rw [Option.eq_none_iff_forall_ne_some]
  intro other hother
  obtain ⟨hsame, hlater⟩ := get_retain.mp hother
  rw [h] at hsame
  cases hsame
  exact hexpired hlater

theorem mem_leastEntries :
    (key, stamp) ∈ map.leastEntries ↔ map[key]? = some stamp ∧
      ∀ (other : κ) (later : Nat), map[other]? = some later → stamp ≤ later := by
  simp only [leastEntries, List.mem_filter, ExtTreeMap.mem_toList_iff_getElem?_eq_some,
    List.all_eq_true, decide_eq_true_eq, Prod.forall]

theorem soonest_spec {tie : Nat} (h : map.soonest tie = some key) :
    ∃ stamp, map[key]? = some stamp ∧
      ∀ (other : κ) (later : Nat), map[other]? = some later → stamp ≤ later := by
  unfold soonest at h
  obtain ⟨entry, hentry, rfl⟩ := Option.map_eq_some_iff.mp h
  exact ⟨entry.2, mem_leastEntries.mp (List.mem_of_getElem? hentry)⟩

omit [LawfulEqOrd κ] in
theorem exists_mem_leastEntries (h : map.toList ≠ []) : ∃ entry, entry ∈ map.leastEntries := by
  obtain ⟨least, hleast⟩ := Option.isSome_iff_exists.mp
    (List.isSome_min?_of_ne_nil (l := map.toList.map Prod.snd) (by simpa using h))
  obtain ⟨hmem, hle⟩ := List.min?_eq_some_iff.mp hleast
  obtain ⟨entry, hentry, rfl⟩ := List.mem_map.mp hmem
  refine ⟨entry, List.mem_filter.mpr ⟨hentry, ?_⟩⟩
  simp only [List.all_eq_true, decide_eq_true_eq]
  exact fun other hother => hle _ (List.mem_map_of_mem hother)

/-- A map that holds anything has an entry to evict. -/
theorem size_evict_lt (tie : Nat) (h : 0 < map.size) : (map.evict tie).size < map.size := by
  have hne : map.toList ≠ [] := by
    rw [← List.length_pos_iff, ExtTreeMap.length_toList]
    exact h
  obtain ⟨entry, hentry⟩ := exists_mem_leastEntries hne
  have hpos : 0 < map.leastEntries.length := List.length_pos_of_mem hentry
  obtain ⟨key, hsoonest⟩ : ∃ key, map.soonest tie = some key := by
    unfold soonest
    rw [List.getElem?_eq_getElem (Nat.mod_lt _ hpos)]
    exact ⟨_, rfl⟩
  obtain ⟨stamp, hstamp, -⟩ := soonest_spec hsoonest
  unfold evict
  rw [hsoonest]
  dsimp only
  rw [ExtTreeMap.size_erase, ExtTreeMap.contains_eq_isSome_getElem?, hstamp]
  simp only [Option.isSome_some, if_true]
  omega

theorem get_evict (h : map[key]? = some stamp) (tie : Nat) :
    (map.evict tie)[key]? = some stamp ∨ (map.evict tie)[key]? = none ∧
      ∀ (other : κ) (later : Nat), map[other]? = some later → stamp ≤ later := by
  unfold evict
  split
  · rename_i gone hgone
    obtain ⟨least, hleast, hle⟩ := soonest_spec hgone
    rw [ExtTreeMap.getElem?_erase]
    by_cases hkey : gone = key
    · subst hkey
      rw [h] at hleast
      right
      simp only [ReflCmp.compare_self, if_true, true_and]
      exact Option.some.inj hleast ▸ hle
    · left
      rw [if_neg (fun hc => hkey (LawfulEqCmp.compare_eq_iff_eq.mp hc))]
      exact h
  · exact .inl h

omit [LawfulEqOrd κ] in
theorem get_evict_none (h : map[key]? = none) (tie : Nat) : (map.evict tie)[key]? = none := by
  unfold evict
  split
  · rw [ExtTreeMap.getElem?_erase, h, ite_self]
  · exact h

/-! ## Denying a key -/

omit [LawfulEqOrd κ] in
theorem denyIn_of_get {slot : Nat} (h : map[key]? = some slot) (stamp nowMs cap tie : Nat) :
    map.denyIn key stamp nowMs cap tie = map.insert key (max slot stamp) := by
  unfold denyIn
  rw [h]

omit [LawfulEqOrd κ] in
theorem denyIn_of_absent (h : map[key]? = none) (stamp nowMs cap tie : Nat) :
    map.denyIn key stamp nowMs cap tie = (map.makeRoom nowMs cap tie).insert key stamp := by
  unfold denyIn
  rw [h]

omit [LawfulEqOrd κ] in
theorem size_pos_of_contains (h : map.contains key = true) : 0 < map.size := by
  refine Nat.pos_of_ne_zero fun hzero => ?_
  rw [ExtTreeMap.eq_empty_iff_size_eq_zero.mpr hzero] at h
  simp at h

omit [LawfulEqOrd κ] in
/-- The denied key is in the map afterwards. -/
theorem size_denyIn_pos (map : DenyMap κ) (key : κ) (stamp nowMs cap tie : Nat) :
    0 < (map.denyIn key stamp nowMs cap tie).size := by
  cases h : map[key]? with
  | some slot =>
    rw [denyIn_of_get h, ExtTreeMap.size_insert, ExtTreeMap.contains_eq_isSome_getElem?, h]
    have hcontains : map.contains key = true := by
      rw [ExtTreeMap.contains_eq_isSome_getElem?, h]
      rfl
    simpa using size_pos_of_contains hcontains
  | none =>
    rw [denyIn_of_absent h, ExtTreeMap.size_insert]
    split
    · rename_i hcontains
      exact size_pos_of_contains hcontains
    · omega

theorem size_makeRoom_lt {cap : Nat} (hcap : 0 < cap) (hsize : map.size ≤ cap) (nowMs tie : Nat) :
    (map.makeRoom nowMs cap tie).size < cap := by
  unfold makeRoom
  dsimp only
  have hkept : (if cap ≤ map.size then map.retain nowMs else map).size ≤ cap := by
    split
    · exact (map.size_retain_le nowMs).trans hsize
    · exact hsize
  generalize (if cap ≤ map.size then map.retain nowMs else map) = kept at hkept ⊢
  split
  · rename_i hfull
    exact (size_evict_lt tie (hcap.trans_le hfull)).trans_le hkept
  · omega

/-- A deny map stays within a positive cap. -/
theorem size_denyIn_le {cap : Nat} (hcap : 0 < cap) (hsize : map.size ≤ cap) (key : κ)
    (stamp nowMs tie : Nat) : (map.denyIn key stamp nowMs cap tie).size ≤ cap := by
  cases h : map[key]? with
  | some slot =>
    rw [denyIn_of_get h, ExtTreeMap.size_insert, ExtTreeMap.contains_eq_isSome_getElem?, h]
    simpa using hsize
  | none =>
    have hroom := size_makeRoom_lt hcap hsize nowMs tie
    rw [denyIn_of_absent h]
    exact ExtTreeMap.size_insert_le.trans hroom

/-- An entry leaves the room made for a new key only at the cap, and only when it is expired or
has the least stamp of all live entries. -/
theorem get_makeRoom (h : map[key]? = some stamp) (nowMs cap tie : Nat) :
    (map.makeRoom nowMs cap tie)[key]? = some stamp ∨
      (map.makeRoom nowMs cap tie)[key]? = none ∧ (stamp ≤ nowMs ∨ cap ≤ map.size ∧
        ∀ (other : κ) (later : Nat), map[other]? = some later → nowMs < later →
          stamp ≤ later) := by
  unfold makeRoom
  dsimp only
  by_cases hfull : cap ≤ map.size
  · rw [if_pos hfull]
    by_cases hlive : nowMs < stamp
    · have hkept : (map.retain nowMs)[key]? = some stamp := get_retain.mpr ⟨h, hlive⟩
      split
      · rcases get_evict hkept tie with hstays | ⟨hgone, hleast⟩
        · exact .inl hstays
        · refine .inr ⟨hgone, .inr ⟨hfull, ?_⟩⟩
          intro other later hother hlater
          exact hleast other later (get_retain.mpr ⟨hother, hlater⟩)
      · exact .inl hkept
    · have hexpired := get_retain_none h hlive
      have hgone : (if cap ≤ (map.retain nowMs).size then (map.retain nowMs).evict tie
          else map.retain nowMs)[key]? = none := by
        split
        · exact get_evict_none hexpired tie
        · exact hexpired
      exact .inr ⟨hgone, .inl (Nat.le_of_not_lt hlive)⟩
  · rw [if_neg hfull, if_neg hfull]
    exact .inl h

/-- No window is shortened, and an entry that goes was expired or, in a full map, had the least
time left of all live entries. -/
def Kept (before after : DenyMap κ) (nowMs cap : Nat) : Prop :=
  ∀ (key : κ) (stamp : Nat), before[key]? = some stamp →
    (∃ later, after[key]? = some later ∧ stamp ≤ later) ∨
      after[key]? = none ∧ (stamp ≤ nowMs ∨ cap ≤ before.size ∧
        ∀ (rival : κ) (later : Nat), before[rival]? = some later → nowMs < later → stamp ≤ later)

omit [LawfulEqOrd κ] in
theorem kept_refl (map : DenyMap κ) (nowMs cap : Nat) : map.Kept map nowMs cap :=
  fun _ stamp hstamp => .inl ⟨stamp, hstamp, Nat.le_refl _⟩

theorem kept_retain (map : DenyMap κ) (nowMs cap : Nat) :
    map.Kept (map.retain nowMs) nowMs cap := by
  intro key stamp hstamp
  by_cases hlive : nowMs < stamp
  · exact .inl ⟨stamp, get_retain.mpr ⟨hstamp, hlive⟩, Nat.le_refl _⟩
  · exact .inr ⟨get_retain_none hstamp hlive, .inl (Nat.le_of_not_lt hlive)⟩

theorem kept_denyIn [DecidableEq κ] (map : DenyMap κ) (key : κ) (stamp nowMs cap tie : Nat) :
    map.Kept (map.denyIn key stamp nowMs cap tie) nowMs cap := by
  intro other before hbefore
  cases h : map[key]? with
  | some slot =>
    left
    rw [denyIn_of_get h, getElem?_insert_self_or]
    by_cases hkey : key = other
    · subst hkey
      rw [h] at hbefore
      cases hbefore
      exact ⟨max before stamp, if_pos rfl, le_max_left _ _⟩
    · exact ⟨before, by rw [if_neg hkey]; exact hbefore, Nat.le_refl _⟩
  | none =>
    have hkey : key ≠ other := by
      rintro rfl
      rw [h] at hbefore
      cases hbefore
    rw [denyIn_of_absent h, getElem?_insert_self_or, if_neg hkey]
    rcases get_makeRoom hbefore nowMs cap tie with hstays | hgone
    · exact .inl ⟨before, hstays, Nat.le_refl _⟩
    · exact .inr hgone

end DenyMap

end Net
end Mewtual
