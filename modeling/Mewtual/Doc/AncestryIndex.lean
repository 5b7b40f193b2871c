import Mewtual.Epoch.Primitives
import Mewtual.Lib.Ranges
import Mewtual.Lib.TreeMap

/-!
# Certificates of ancestry

A bounded index keeps, for recent changes, ranges of log positions whose changes are at or
behind the change. Certificates are inherited from dependencies, merged, truncated and
evicted; each of these loses facts and none invents one.

Main results:

- Theorem {lit}`AncestryIndex.record_sound`: recording keeps every certificate true.
-/

namespace Mewtual

open Std

/-- Hash of an Automerge change. -/
abbrev ChangeHash := Hash32

def maxEntries : Nat := 4096

def maxRanges : Nat := 8

def maxParents : Nat := 32

def u32Max : Nat := 4294967295

/-- Ranges certified for one change. -/
structure Certificate where
  ranges : List LogRange
  /-- All dependency branches were represented when recorded. -/
  complete : Bool
  short : ranges.length ≤ maxRanges

namespace Certificate

/-- Merge the proved ranges and keep the broadest of them. -/
def certify (ranges : List LogRange) (complete : Bool) : Certificate :=
  if hlen : (mergeRanges ranges).length ≤ maxRanges then ⟨mergeRanges ranges, complete, hlen⟩
  else ⟨broadest maxRanges (mergeRanges ranges), false, length_broadest_le _ _⟩

/-- A certificate covers only what was proved. -/
theorem covers_certify {ranges : List LogRange} {complete : Bool} {position : Nat}
    (h : Covers (certify ranges complete).ranges position) : Covers ranges position := by
  unfold certify at h
  split at h
  · exact covers_mergeRanges h
  · exact covers_mergeRanges (covers_broadest h)

end Certificate

/-- Conservative, bounded certificates of ancestry in one log order. -/
structure AncestryIndex where
  certificates : ExtTreeMap ChangeHash Certificate
  insertionOrder : List ChangeHash
  capacity : Nat

namespace AncestryIndex

/-- An empty index of at most so many certificates. -/
def withCapacity (capacity : Nat) : AncestryIndex := ⟨∅, [], min capacity maxEntries⟩

/-- {lit}`AncestryIndex::default`. -/
def empty : AncestryIndex := withCapacity maxEntries

/-- The certificate of a change. -/
def get (index : AncestryIndex) (hash : ChangeHash) : Option Certificate :=
  index.certificates[hash]?

/-- Add one dependency's certificate to the ranges collected so far. -/
def inheritOne (index : AncestryIndex) (collected : List LogRange × Bool)
    (dependency : ChangeHash) : List LogRange × Bool :=
  match index.get dependency with
  | some parent => (collected.1 ++ parent.ranges, collected.2 && parent.complete)
  | none => (collected.1, false)

/-- What a new change inherits from its dependencies. -/
def inherited (index : AncestryIndex) (deps : List ChangeHash) : List LogRange × Bool :=
  (deps.take maxParents).foldl index.inheritOne ([], decide (deps.length ≤ maxParents))

/-- What is known of a change before its new position is added. A second envelope of the same
change extends the certificate it has. -/
def known (index : AncestryIndex) (hash : ChangeHash) (deps : List ChangeHash) :
    List LogRange × Bool :=
  match index.get hash with
  | some existing => (existing.ranges, existing.complete)
  | none => index.inherited deps

/-- Make room for a new entry by dropping the oldest. -/
def evicted (index : AncestryIndex) : AncestryIndex :=
  if index.certificates.size ≥ index.capacity then
    match index.insertionOrder with
    | [] => index
    | oldest :: rest =>
      { index with certificates := index.certificates.erase oldest, insertionOrder := rest }
  else index

/-- Store a certificate under its change. -/
def store (index : AncestryIndex) (hash : ChangeHash) (certificate : Certificate) :
    AncestryIndex :=
  if index.certificates.contains hash then
    { index with certificates := index.certificates.insert hash certificate }
  else
    let index := index.evicted
    { index with
      certificates := index.certificates.insert hash certificate
      insertionOrder := index.insertionOrder ++ [hash] }

/-- Record that the log position carries the change. -/
def record (index : AncestryIndex) (position : Nat) (hash : ChangeHash)
    (deps : List ChangeHash) : AncestryIndex :=
  if position + 1 > u32Max then index
  else if index.capacity = 0 then index
  else
    let (ranges, complete) := index.known hash deps
    index.store hash (.certify (ranges ++ [⟨position, position + 1⟩]) complete)

/-! ## Soundness -/

/-- Every certified position stands in the given relation to its change. -/
def Sound (index : AncestryIndex) (Held : ChangeHash → Nat → Prop) : Prop :=
  ∀ hash certificate, index.get hash = some certificate →
    ∀ position, Covers certificate.ranges position → Held hash position

theorem sound_empty (Held : ChangeHash → Nat → Prop) : empty.Sound Held := by
  intro hash certificate hget
  simp [get, empty, withCapacity] at hget

variable {index : AncestryIndex} {Held : ChangeHash → Nat → Prop} {hash : ChangeHash}
  {deps : List ChangeHash} {position : Nat}

theorem Sound.mono {Held Held' : ChangeHash → Nat → Prop} (h : index.Sound Held)
    (hmono : ∀ hash position, Held hash position → Held' hash position) :
    index.Sound Held' :=
  fun hash certificate hget position hcovers =>
    hmono hash position (h hash certificate hget position hcovers)

/-- Inherited ranges come from the certificates of the dependencies. -/
theorem covers_inherited {collected : List LogRange × Bool}
    (h : Covers (deps.foldl index.inheritOne collected).1 position) :
    Covers collected.1 position ∨ ∃ dependency ∈ deps, ∃ certificate,
      index.get dependency = some certificate ∧ Covers certificate.ranges position := by
  induction deps generalizing collected with
  | nil => exact .inl h
  | cons dependency deps ih =>
    rw [List.foldl_cons] at h
    rcases ih h with hcollected | ⟨later, hlater, hfound⟩
    · unfold inheritOne at hcollected
      split at hcollected <;> rename_i hget
      · rw [covers_append] at hcollected
        rcases hcollected with hbefore | hparent
        · exact .inl hbefore
        · exact .inr ⟨dependency, List.mem_cons_self, _, hget, hparent⟩
      · exact .inl hcollected
    · exact .inr ⟨later, List.mem_cons_of_mem _ hlater, hfound⟩

section

variable (h : index.Sound Held)

include h

/-- What is known of a change holds of it once it holds of its dependencies. -/
theorem covers_known
    (hdeps : ∀ dependency ∈ deps, ∀ position, Held dependency position → Held hash position)
    (hcovers : Covers (index.known hash deps).1 position) : Held hash position := by
  unfold known at hcovers
  split at hcovers <;> rename_i hget
  · exact h hash _ hget position hcovers
  · rcases covers_inherited hcovers with hnone | ⟨dependency, hmem, certificate, hget, hparent⟩
    · exact absurd hnone (not_covers_nil position)
    · exact hdeps dependency (List.mem_of_mem_take hmem) position
        (h dependency certificate hget position hparent)

theorem Sound.evicted : index.evicted.Sound Held := by
  unfold AncestryIndex.evicted
  split
  · split
    · exact h
    · intro hash certificate hget position hcovers
      refine h hash certificate ?_ position hcovers
      rw [get, ExtTreeMap.getElem?_erase] at hget
      split at hget
      · cases hget
      · exact hget
  · exact h

theorem sound_insert {certificate : Certificate}
    (hnew : ∀ position, Covers certificate.ranges position → Held hash position)
    (order : List ChangeHash) :
    Sound { index with
      certificates := index.certificates.insert hash certificate
      insertionOrder := order } Held := by
  intro other found hget position hcovers
  rcases of_getElem?_insert hget with ⟨rfl, rfl⟩ | hget
  · exact hnew position hcovers
  · exact h other found hget position hcovers

theorem Sound.store {certificate : Certificate}
    (hnew : ∀ position, Covers certificate.ranges position → Held hash position) :
    (index.store hash certificate).Sound Held := by
  unfold AncestryIndex.store
  split
  · exact sound_insert h hnew index.insertionOrder
  · exact sound_insert h.evicted hnew _

/-- Recording keeps every certificate true: the new position holds of its change, and what
holds of a dependency holds of the change. -/
theorem record_sound (hself : Held hash position)
    (hdeps : ∀ dependency ∈ deps, ∀ position, Held dependency position → Held hash position) :
    (index.record position hash deps).Sound Held := by
  unfold record
  split
  · exact h
  · split
    · exact h
    · refine h.store ?_
      intro covered hcovers
      have hproved := Certificate.covers_certify hcovers
      rw [covers_append] at hproved
      rcases hproved with hknown | hnew
      · exact covers_known h hdeps hknown
      · simp only [covers_cons, not_covers_nil, or_false, LogRange.Has] at hnew
        have heq : covered = position := by omega
        rw [heq]
        exact hself

end

end AncestryIndex

end Mewtual
