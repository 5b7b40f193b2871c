import Mathlib.Data.List.Dedup
import Mathlib.Data.List.Rotate
import Mathlib.Data.List.Sort
import Mathlib.Data.List.TakeWhile
import Mewtual.Lib.Run

/-!
# Turns of member finalization

A host finalizes the connected members that it has not finalized yet, two in a pass. A pass takes
them from the sorted list behind a cursor, wraps around at its end and moves the cursor to the last
one it took.

Main results:

- Theorem {lit}`Pass.starvation_free`: a peer that stays pending gets its turn, and no pass skips a
  peer between the old and the new cursor.
-/

namespace Mewtual.Sync

variable {Device Peer : Type} [DecidableEq Device] [LinearOrder Peer]

def memberFinalizationWorkPerPass : Nat := 2

def maxMemberFinalizationObservations : Nat := 320 * 2

/-- What a pass reads of the channel; anything may change from one pass to the next. -/
structure Pass (Device Peer : Type) where
  allowsMemberMesh : Bool
  localDevice : Device
  localPeer : Peer
  members : List Device
  peerRecords : List (Device × Peer)
  admitted : List (Device × Peer)
  observed : List Peer
  connections : List Peer
  isConnected : Peer → Bool
  readyPeers : List Peer

namespace Pass

/-- The admitted endpoints that no descriptor supersedes. -/
def prune (pass : Pass Device Peer) : List (Device × Peer) :=
  pass.admitted.filter fun entry => entry.1 ∈ pass.members ∧ entry.2 ≠ pass.localPeer ∧
    entry.1 ∉ pass.peerRecords.map Prod.fst ∧ entry.2 ∉ pass.peerRecords.map Prod.snd

/-- The peers that may get a turn, in order. -/
def candidates (pass : Pass Device Peer) : List Peer :=
  if pass.allowsMemberMesh then
    let claims := pass.peerRecords.filter fun entry =>
      entry.1 ≠ pass.localDevice ∧ entry.1 ∈ pass.members
    (((claims ++ pass.prune).map Prod.snd).insertionSort (· ≤ ·)).dedup
  else []

/-- The unmet work; none is looked for if there are too many observations. -/
def pending (pass : Pass Device Peer) : List Peer :=
  if pass.observed.length > maxMemberFinalizationObservations then []
  else pass.candidates.filter fun peer =>
    peer ∈ pass.observed ++ pass.connections ∧ pass.isConnected peer ∧ peer ∉ pass.readyPeers

/-- The pending peers from the one behind the cursor on. -/
def turns (cursor : Option Peer) (pending : List Peer) : List Peer :=
  match cursor with
  | none => pending
  | some cursor =>
    let start := (pending.takeWhile (· ≤ cursor)).length
    if start < pending.length then pending.rotate start else pending

/-- The peers of a pass, and the cursor for the next. -/
def memberFinalizationWork (pass : Pass Device Peer) (cursor : Option Peer) :
    List Peer × Option Peer :=
  let chosen := (turns cursor pass.pending).take memberFinalizationWorkPerPass
  (chosen, chosen.getLast?.or cursor)

/-- The peers that passes select, one pass after the other. -/
def selected (cursor : Option Peer) (passes : List (Pass Device Peer)) : List Peer :=
  Mewtual.observed (fun cursor pass => (pass.memberFinalizationWork cursor).2)
    (fun cursor pass => (pass.memberFinalizationWork cursor).1) cursor passes

/-- Behind the old cursor and before the new one, around the end of the order if need be. -/
def Between : Option Peer → Peer → Peer → Prop
  | none, new, peer => peer < new
  | some old, new, peer => if old < new then old < peer ∧ peer < new else old < peer ∨ peer < new

theorem pairwise_pending (pass : Pass Device Peer) : pass.pending.Pairwise (· < ·) := by
  have hcandidates : pass.candidates.Pairwise (· < ·) := by
    unfold candidates
    split
    · dsimp only
      generalize List.map Prod.snd _ = claimed
      have hle := (List.pairwise_insertionSort (· ≤ ·) claimed).sublist (List.dedup_sublist _)
      exact (hle.and (List.nodup_dedup _)).imp fun hboth => lt_of_le_of_ne hboth.1 hboth.2
    · exact .nil
  unfold pending
  split
  · exact .nil
  · exact hcandidates.filter _

variable {peers : List Peer}

theorem turns_some (cursor : Peer) (peers : List Peer) :
    turns (some cursor) peers = peers.rotate (peers.takeWhile (· ≤ cursor)).length := by
  dsimp only [turns]
  split
  · rfl
  · rename_i hall
    have hle := (List.takeWhile_sublist (· ≤ cursor) (l := peers)).length_le
    rw [Nat.le_antisymm hle (Nat.not_lt.mp hall), List.rotate_length]

theorem exists_rotate (cursor : Option Peer) (peers : List Peer) :
    ∃ start, turns cursor peers = peers.rotate start := by
  cases cursor with
  | none => exact ⟨0, (List.rotate_zero peers).symm⟩
  | some cursor => exact ⟨_, turns_some cursor peers⟩

theorem turns_perm (cursor : Option Peer) (peers : List Peer) :
    (turns cursor peers).Perm peers := by
  obtain ⟨start, hstart⟩ := exists_rotate cursor peers
  rw [hstart]
  exact List.rotate_perm peers start

section

variable (h : peers.Pairwise (· < ·))

include h

theorem length_takeWhile_getElem {place : Nat}
    (hplace : place < peers.length) :
    (peers.takeWhile (· ≤ peers[place])).length = place + 1 := by
  induction peers generalizing place with
  | nil => cases hplace
  | cons first later ih =>
    obtain ⟨hfirst, hlater⟩ := List.pairwise_cons.mp h
    cases place with
    | zero =>
      cases later with
      | nil => simp
      | cons second later => simp [hfirst second List.mem_cons_self]
    | succ place =>
      have hlt := Nat.lt_of_succ_lt_succ hplace
      have hle : first ≤ later[place] := (hfirst _ (List.getElem_mem hlt)).le
      simp [hle, ih hlater hlt]

/-- A pass moves the cut by two. -/
theorem turns_next (htwo : 2 ≤ peers.length) (cursor : Option Peer) :
    turns (((turns cursor peers).take 2).getLast?.or cursor) peers =
      (turns cursor peers).rotate 2 := by
  obtain ⟨start, hstart⟩ := exists_rotate cursor peers
  have hplace : (1 + start) % peers.length < peers.length := Nat.mod_lt _ (by omega)
  have hlast : ((peers.rotate start).take 2).getLast? =
      some peers[(1 + start) % peers.length] := by
    rw [List.getLast?_take, if_neg (by decide), List.getElem?_rotate (by omega),
      List.getElem?_eq_getElem hplace]
    rfl
  rw [hstart, hlast, Option.some_or, turns_some, length_takeWhile_getElem h hplace,
    List.rotate_rotate, ← List.rotate_mod, Nat.mod_add_mod, List.rotate_mod]
  congr 1
  omega

/-- A peer is selected as soon as the cut has moved up to its place. -/
theorem mem_selected {cursor : Option Peer}
    {passes : List (Pass Device Peer)} (hpending : ∀ pass ∈ passes, pass.pending = peers)
    {place : Nat} {peer : Peer} (hpeer : (turns cursor peers)[place]? = some peer)
    (hplace : place < 2 * passes.length) : peer ∈ selected cursor passes := by
  induction passes generalizing cursor place with
  | nil => simp at hplace
  | cons pass later ih =>
    obtain ⟨hpass, hlater⟩ := List.forall_mem_cons.mp hpending
    unfold selected
    rw [Mewtual.observed, List.mem_append]
    unfold memberFinalizationWork
    rw [hpass]
    by_cases hnow : place < 2
    · refine .inl (List.mem_of_getElem? (i := place) ?_)
      rw [memberFinalizationWorkPerPass, List.getElem?_take_of_lt hnow]
      exact hpeer
    · have hlength := (turns_perm cursor peers).length_eq
      have hlt := (List.getElem?_eq_some_iff.mp hpeer).1
      have hnext : ((turns cursor peers).rotate 2)[place - 2]? = some peer := by
        rw [List.getElem?_rotate (by omega), Nat.sub_add_cancel (by omega), Nat.mod_eq_of_lt hlt]
        exact hpeer
      rw [← turns_next h (by omega)] at hnext
      refine .inr (ih hlater hnext ?_)
      rw [List.length_cons] at hplace
      omega

theorem lt_of_mem_dropWhile {cursor peer : Peer}
    (hpeer : peer ∈ peers.dropWhile (· ≤ cursor)) : cursor < peer := by
  induction peers with
  | nil => cases hpeer
  | cons first later ih =>
    obtain ⟨hfirst, hlater⟩ := List.pairwise_cons.mp h
    rw [List.dropWhile_cons] at hpeer
    split at hpeer
    · exact ih hlater hpeer
    · rename_i hbehind
      have hcursor : cursor < first := by simpa using hbehind
      rcases List.mem_cons.mp hpeer with rfl | hmem
      · exact hcursor
      · exact hcursor.trans (hfirst peer hmem)

/-- In their turns no peer stands behind one that it is before. -/
theorem pairwise_turns (cursor : Option Peer) :
    (turns cursor peers).Pairwise fun earlier later => ¬ Between cursor earlier later := by
  cases cursor with
  | none => exact h.imp fun hlt => hlt.not_gt
  | some cursor =>
    have hbehind : ∀ peer ∈ peers.dropWhile (· ≤ cursor), cursor < peer :=
      fun peer => lt_of_mem_dropWhile h
    have hbefore : ∀ peer ∈ peers.takeWhile (· ≤ cursor), peer ≤ cursor := fun peer hpeer => by
      simpa using List.mem_takeWhile_imp hpeer
    have hturns := List.rotate_append_length_eq (peers.takeWhile (· ≤ cursor))
      (peers.dropWhile (· ≤ cursor))
    rw [List.takeWhile_append_dropWhile, ← turns_some] at hturns
    rw [← List.takeWhile_append_dropWhile (p := (· ≤ cursor)) (l := peers),
      List.pairwise_append] at h
    rw [hturns, List.pairwise_append]
    dsimp only [Between]
    refine ⟨h.2.1.imp_of_mem fun hearlier _ hlt => ?_, h.1.imp_of_mem fun hearlier hlater hlt => ?_,
      fun earlier hearlier later hlater => ?_⟩
    · grind
    · grind
    · grind

end

/-- A peer that stays pending is selected within as many passes as it takes to serve all, from any
cursor; and a pass selects every pending peer between the old cursor and the new one. -/
theorem starvation_free :
    (∀ (peers : List Peer) (cursor : Option Peer) (passes : List (Pass Device Peer)),
      (∀ pass ∈ passes, pass.pending = peers) → (peers.length + 1) / 2 ≤ passes.length →
      ∀ peer ∈ peers, peer ∈ selected cursor passes) ∧
    ∀ (pass : Pass Device Peer) (cursor : Option Peer) (new : Peer),
      (pass.memberFinalizationWork cursor).2 = some new →
      ∀ peer ∈ pass.pending, Between cursor new peer →
        peer ∈ (pass.memberFinalizationWork cursor).1 := by
  refine ⟨fun peers cursor passes hpending hpasses peer hpeer => ?_,
    fun pass cursor new hnew peer hpeer hbetween => ?_⟩
  · have hpos := List.length_pos_of_mem hpeer
    obtain ⟨pass, hpass⟩ := List.exists_mem_of_length_pos (l := passes) (by omega)
    have hsorted : peers.Pairwise (· < ·) := hpending pass hpass ▸ pass.pairwise_pending
    have hperm := turns_perm cursor peers
    obtain ⟨place, hplace⟩ := List.getElem?_of_mem (hperm.mem_iff.mpr hpeer)
    have hlt := (List.getElem?_eq_some_iff.mp hplace).1
    rw [hperm.length_eq] at hlt
    exact mem_selected hsorted hpending hplace (by omega)
  · have hturn := (turns_perm cursor pass.pending).mem_iff.mpr hpeer
    have hpairs := pairwise_turns pass.pairwise_pending cursor
    unfold memberFinalizationWork at hnew ⊢
    dsimp only at hnew ⊢
    generalize turns cursor pass.pending = turns at hturn hpairs hnew
    rw [← List.take_append_drop memberFinalizationWorkPerPass turns] at hturn hpairs
    rcases List.mem_append.mp hturn with hchosen | hleft
    · exact hchosen
    · rcases Option.or_eq_some_iff.mp hnew with hlast | ⟨hnone, -⟩
      · have hlater := (List.pairwise_append.mp hpairs).2.2 new (List.mem_of_getLast? hlast)
        exact absurd hbetween (hlater peer hleft)
      · -- nothing is left if nothing is chosen
        rw [List.getLast?_eq_none_iff, List.take_eq_nil_iff] at hnone
        rw [hnone.resolve_left (by decide)] at hleft
        cases hleft

/-- Three peers in two passes, the first of which wraps around. -/
theorem starvation_free_three :
    let pass : Pass Nat Nat := ⟨true, 0, 0, [0, 1, 2, 3], [(0, 0), (1, 10), (2, 20)], [(3, 30)],
      [10], [20, 30], fun _ => true, []⟩
    pass.pending = [10, 20, 30] ∧ (pass.memberFinalizationWork (some 20)).2 = some 10 ∧
      Between (some 20) 10 30 ∧ 30 ∈ (pass.memberFinalizationWork (some 20)).1 ∧
      ∀ peer ∈ [10, 20, 30], peer ∈ selected (some 20) [pass, pass] := by
  intro pass
  have hpending : pass.pending = [10, 20, 30] := by decide
  have hnew : (pass.memberFinalizationWork (some 20)).2 = some 10 := by decide
  have hbetween : Between (some 20) 10 30 := .inl (by decide)
  have hskip := starvation_free.2 pass (some 20) 10 hnew 30 (by decide) hbetween
  refine ⟨hpending, hnew, hbetween, hskip, ?_⟩
  exact starvation_free.1 [10, 20, 30] (some 20) [pass, pass] (by simp [hpending]) (by decide)

end Pass

end Mewtual.Sync
