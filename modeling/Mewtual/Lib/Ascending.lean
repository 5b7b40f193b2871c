import Mewtual.Lib.Bytes
import Mewtual.Lib.MapMoves

/-!
# Runs of entries in ascending order

Canonical formats write the entries of an ordered map or set in ascending order, and a strict reader
accepts them in no other order. What is read is then the map that was written.

Main results:

- Theorem {lit}`Reads.ascending`: entries in ascending order are read back.
- Theorem {lit}`insertAll_toList`: a map is filled again from its entries.
- Theorem {lit}`ofList_toList`: a set is filled again from its elements.
-/

namespace Mewtual

open Std

/-- Read entries whose keys strictly ascend from an earlier key. -/
def Reader.ascending {ε α κ : Type} [Ord κ] (bad : ε) (keyOf : α → κ) (reader : Reader ε α) :
    Nat → Option κ → Reader ε (List α)
  | 0, _ => pure []
  | count + 1, prior => do
    let head ← reader
    if prior.any fun prior => (compare prior (keyOf head)).isGE then throw bad
    let tail ← Reader.ascending bad keyOf reader count (some (keyOf head))
    pure (head :: tail)

theorem Reads.ascending {ε α κ : Type} [Ord κ] {bad : ε} {keyOf : α → κ} {reader : Reader ε α}
    {put : α → Bytes} {entries : List α}
    (hreads : ∀ entry ∈ entries, Reads reader (put entry) entry)
    (hascending : entries.Pairwise fun left right => compare (keyOf left) (keyOf right) = .lt)
    {prior : Option κ}
    (hprior : ∀ key ∈ prior, ∀ entry ∈ entries, compare key (keyOf entry) = .lt) :
    Reads (Reader.ascending bad keyOf reader entries.length prior) (entries.flatMap put)
      entries := by
  induction entries generalizing prior with
  | nil => exact Reads.pure []
  | cons entry entries ih =>
    intro rest
    obtain ⟨hfirst, hascending⟩ := List.pairwise_cons.mp hascending
    have hfresh : ¬ (prior.any fun prior => (compare prior (keyOf entry)).isGE) = true := by
      intro hany
      cases prior with
      | none => cases hany
      | some key =>
        rw [Option.any_some, hprior key rfl entry List.mem_cons_self] at hany
        cases hany
    have htail : Reads (Reader.ascending bad keyOf reader entries.length (some (keyOf entry)))
        (entries.flatMap put) entries := by
      refine ih (fun other hother => hreads other (List.mem_cons_of_mem entry hother)) hascending ?_
      intro key hkey other hother
      cases hkey
      exact hfirst other hother
    rw [List.length_cons, Reader.ascending, List.flatMap_cons, List.append_assoc,
      (hreads entry List.mem_cons_self).run_bind, if_neg hfresh]
    rw [htail.run_bind]
    rfl

section Refill

variable {κ ν : Type} [Ord κ] [TransOrd κ] [LawfulEqOrd κ] [DecidableEq κ]

/-- A map is filled again from its entries. -/
theorem insertAll_toList (map : ExtTreeMap κ ν) : insertAll ∅ map.toList = map := by
  apply treeMap_ext
  intro key value
  rw [getElem?_insertAll, ExtTreeMap.mem_toList_iff_getElem?_eq_some]
  intro left right hleft hright
  rw [ExtTreeMap.mem_toList_iff_getElem?_eq_some] at hleft hright
  rw [hleft] at hright
  exact Option.some.inj hright

/-- A set is filled again from its elements. -/
theorem ofList_toList (set : ExtTreeSet κ) : ExtTreeSet.ofList set.toList compare = set := by
  apply ExtTreeSet.ext_mem
  intro key
  rw [mem_ofList, ExtTreeSet.mem_toList]

end Refill

end Mewtual
