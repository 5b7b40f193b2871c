import Mewtual.Voice.LimitsRows

/-!
# Joins and bindings of a row

A row has two memories of a join: the entry that counts it against the rate, and the binding that
holds its key while it is protected. They agree on the key and on the renewal of a join, so that
neither can be used to go around the other.

Main results:

- Theorem {lit}`Record.join_spec`, {lit}`Record.renew_spec`, {lit}`Record.protect_spec`: everything
  that an action on joins does.
- Theorem {lit}`Record.Sound.apply`: every action keeps the two memories in agreement.
-/

namespace Mewtual.Voice

open Std

namespace Record

/-! ## What the actions do -/

/-- What a join does to a row. -/
inductive Joined (nonce : Nonce) (keyRef : KeyRef) (now deadline : Nat) (record : Record) :
    Except VoiceError Unit → Record → Prop where
  | refused (error : VoiceError) :
      Joined nonce keyRef now deadline record (.error error) (record.recentJoins now)
  | extended {binding : Binding}
      (hbinding : record.bindings.find? (fun binding => binding.join = nonce) = some binding)
      (hkey : binding.keyRef = keyRef) :
      Joined nonce keyRef now deadline record (.ok ())
        { record.recentJoins now with
          bindings := updateFirst (fun binding => binding.join = nonce)
            (fun binding => { binding with deadline := max binding.deadline deadline })
            record.bindings }
  | rebound {seen : SeenJoin}
      (hnone : record.bindings.find? (fun binding => binding.join = nonce) = none)
      (hseen : (record.recentJoins now).joins.find? (fun seen => seen.join = nonce) = some seen)
      (hkey : seen.keyRef = keyRef) (hlength : record.bindings.length < maxBindings) :
      Joined nonce keyRef now deadline record (.ok ())
        { record.recentJoins now with
          bindings := record.bindings ++ [⟨nonce, keyRef, deadline, [], seen.renewal⟩] }
  | recorded
      (hnone : record.bindings.find? (fun binding => binding.join = nonce) = none)
      (hunseen : (record.recentJoins now).joins.find? (fun seen => seen.join = nonce) = none)
      (hjoins : (record.recentJoins now).joins.length < 4)
      (hlength : record.bindings.length < maxBindings) :
      Joined nonce keyRef now deadline record (.ok ())
        { record.recentJoins now with
          joins := (record.recentJoins now).joins ++ [⟨nonce, keyRef, now, 0⟩]
          bindings := record.bindings ++ [⟨nonce, keyRef, deadline, [], 0⟩] }

theorem join_spec (nonce : Nonce) (keyRef : KeyRef) (now deadline : Nat) (record : Record) :
    Joined nonce keyRef now deadline record (record.join nonce keyRef now deadline).1
      (record.join nonce keyRef now deadline).2 := by
  unfold join
  dsimp only
  split
  · rename_i binding hbinding
    by_cases hkey : binding.keyRef = keyRef
    · rw [if_neg (fun hne => hne hkey)]
      exact .extended hbinding hkey
    · rw [if_pos hkey]
      exact .refused _
  · rename_i hnone
    unfold bind
    dsimp only
    cases hseen : (record.recentJoins now).joins.find? fun seen => seen.join = nonce with
    | none =>
      split
      · exact .refused _
      · split
        · exact .refused _
        · split
          · exact .refused _
          · rename_i hrate hcapacity
            have hjoins : (record.recentJoins now).joins.length < 4 :=
              Nat.lt_of_not_le fun hle => hrate ⟨rfl, hle⟩
            exact .recorded hnone hseen hjoins (Nat.lt_of_not_le hcapacity)
    | some seen =>
      split
      · exact .refused _
      · split
        · exact .refused _
        · split
          · exact .refused _
          · rename_i hkey _ hcapacity
            have hsame : seen.keyRef = keyRef := by
              by_contra hne
              exact hkey (by simpa using hne)
            exact .rebound hnone hseen hsame (Nat.lt_of_not_le hcapacity)

/-- What a renewal does to a row. -/
inductive Renewed (nonce : Nonce) (keyRef : KeyRef) (sequence : Nat) (record : Record) :
    Except VoiceError Unit → Record → Prop where
  | refused (error : VoiceError) : Renewed nonce keyRef sequence record (.error error) record
  | raised {binding : Binding}
      (hbinding : record.bindings.find?
        (fun binding => binding.join = nonce ∧ binding.keyRef = keyRef) = some binding)
      (hsequence : binding.renewal ≤ sequence) :
      Renewed nonce keyRef sequence record (.ok ())
        { record with
          bindings := updateFirst (fun binding => binding.join = nonce ∧ binding.keyRef = keyRef)
            (fun binding => { binding with renewal := sequence }) record.bindings
          joins := updateFirst (fun seen => seen.join = nonce)
            (fun seen => { seen with renewal := sequence }) record.joins }

theorem renew_spec (nonce : Nonce) (keyRef : KeyRef) (sequence : Nat) (record : Record) :
    Renewed nonce keyRef sequence record (record.renew nonce keyRef sequence).1
      (record.renew nonce keyRef sequence).2 := by
  unfold renew
  split
  · exact .refused _
  · rename_i binding hbinding
    split
    · exact .refused _
    · rename_i hfresh
      exact .raised hbinding (Nat.le_of_not_lt fun hlt => hfresh (.inr hlt))

/-- What pinning does to a row. -/
inductive Pinned (nonce : Nonce) (keyRef : KeyRef) (lease : CallLease) (record : Record) :
    Except VoiceError Unit → Record → Prop where
  | unchanged (outcome : Except VoiceError Unit) : Pinned nonce keyRef lease record outcome record
  | pinned {binding : Binding}
      (hbinding : record.bindings.find?
        (fun binding => binding.join = nonce ∧ binding.keyRef = keyRef) = some binding)
      (hpins : binding.pins.length < maxPins) :
      Pinned nonce keyRef lease record (.ok ())
        { record with
          bindings := updateFirst (fun binding => binding.join = nonce ∧ binding.keyRef = keyRef)
            (fun binding => { binding with pins := binding.pins ++ [lease] }) record.bindings }

theorem protect_spec (nonce : Nonce) (keyRef : KeyRef) (lease : CallLease) (record : Record) :
    Pinned nonce keyRef lease record (record.protect nonce keyRef lease).1
      (record.protect nonce keyRef lease).2 := by
  unfold protect
  split
  · exact .unchanged _
  · rename_i binding hbinding
    split
    · exact .unchanged _
    · split
      · exact .unchanged _
      · rename_i hcapacity
        exact .pinned hbinding (Nat.lt_of_not_le hcapacity)

/-! ## Agreement -/

/-- Joins are remembered once each, in agreement and within the caps. -/
structure Sound (record : Record) : Prop where
  created_le : ∀ seen ∈ record.joins, seen.created ≤ record.touched
  joins_nodup : (record.joins.map SeenJoin.join).Nodup
  bindings_nodup : (record.bindings.map Binding.join).Nodup
  agree : ∀ binding ∈ record.bindings, ∀ seen ∈ record.joins, seen.join = binding.join →
    seen.keyRef = binding.keyRef ∧ seen.renewal = binding.renewal
  bindings_le : record.bindings.length ≤ maxBindings
  pins_le : ∀ binding ∈ record.bindings, binding.pins.length ≤ maxPins

namespace Sound

variable {record : Record}

theorem fresh (now : Nat) : (Record.fresh now).Sound where
  created_le := nofun
  joins_nodup := List.nodup_nil
  bindings_nodup := List.nodup_nil
  agree := nofun
  bindings_le := Nat.zero_le _
  pins_le := nofun

section

variable (h : record.Sound)

include h

theorem binding_unique {first second : Binding} (hfirst : first ∈ record.bindings)
    (hsecond : second ∈ record.bindings) (hjoin : first.join = second.join) : first = second :=
  List.inj_on_of_nodup_map h.bindings_nodup hfirst hsecond hjoin

theorem seen_unique {first second : SeenJoin} (hfirst : first ∈ record.joins)
    (hsecond : second ∈ record.joins) (hjoin : first.join = second.join) : first = second :=
  List.inj_on_of_nodup_map h.joins_nodup hfirst hsecond hjoin

/-- Entries are dropped. -/
theorem sublist {joins : List SeenJoin} (hjoins : joins.Sublist record.joins)
    {bindings : List Binding} (hbindings : bindings.Sublist record.bindings) :
    { record with joins := joins, bindings := bindings }.Sound where
  created_le := fun seen hseen => h.created_le seen (hjoins.subset hseen)
  joins_nodup := h.joins_nodup.sublist (hjoins.map _)
  bindings_nodup := h.bindings_nodup.sublist (hbindings.map _)
  agree := fun binding hbinding seen hseen =>
    h.agree binding (hbindings.subset hbinding) seen (hjoins.subset hseen)
  bindings_le := hbindings.length_le.trans h.bindings_le
  pins_le := fun binding hbinding => h.pins_le binding (hbindings.subset hbinding)

/-- Bindings change in what is not remembered twice. -/
theorem mapBindings {change : Binding → Binding}
    (hsame : ∀ binding, (change binding).join = binding.join ∧
      (change binding).keyRef = binding.keyRef ∧ (change binding).renewal = binding.renewal)
    (hpins : ∀ binding ∈ record.bindings, (change binding).pins.length ≤ maxPins) :
    { record with bindings := record.bindings.map change }.Sound := { h with
  bindings_nodup := by
    have hmap :
        (record.bindings.map change).map Binding.join = record.bindings.map Binding.join := by
      rw [List.map_map]
      exact List.map_congr_left fun binding _ => (hsame binding).1
    rw [hmap]
    exact h.bindings_nodup
  agree := by
    intro binding hbinding seen hseen hjoin
    obtain ⟨old, hold, rfl⟩ := List.mem_map.mp hbinding
    obtain ⟨hnonce, hkey, hrenewal⟩ := hsame old
    rw [hkey, hrenewal]
    exact h.agree old hold seen hseen (hjoin.trans hnonce)
  bindings_le := by
    rw [List.length_map]
    exact h.bindings_le
  pins_le := by
    intro binding hbinding
    obtain ⟨old, hold, rfl⟩ := List.mem_map.mp hbinding
    exact hpins old hold }

theorem pruned (live : CallLease → Bool) (now : Nat) :
    (record.pruned live now).Sound := by
  have hmapped : Record.Sound { record with
      bindings := record.bindings.map fun binding =>
        { binding with pins := binding.pins.filter live } } :=
    h.mapBindings (fun _ => ⟨rfl, rfl, rfl⟩) fun binding hbinding =>
      (List.length_filter_le _ _).trans (h.pins_le binding hbinding)
  exact hmapped.sublist (List.Sublist.refl _) List.filter_sublist

theorem touch (now : Nat) : (record.touch now).Sound := { h with
  created_le := fun seen hseen => (h.created_le seen hseen).trans (Nat.le_max_left _ _) }

theorem recentJoins (now : Nat) : (record.recentJoins now).Sound :=
  h.sublist List.filter_sublist (List.Sublist.refl _)

/-- The first binding of a join is changed in what is not remembered twice. -/
theorem updateBinding {matched : Binding → Bool} {nonce : Nonce}
    (hmatched : ∀ binding, matched binding = true → binding.join = nonce)
    {change : Binding → Binding}
    (hsame : ∀ binding, (change binding).join = binding.join ∧
      (change binding).keyRef = binding.keyRef ∧ (change binding).renewal = binding.renewal)
    (hpins : ∀ binding ∈ record.bindings, matched binding = true →
      (change binding).pins.length ≤ maxPins) :
    { record with bindings := updateFirst matched change record.bindings }.Sound := by
  rw [updateFirst_eq_map change (fun first second hfirst hsecond =>
    (hmatched first hfirst).trans (hmatched second hsecond).symm) h.bindings_nodup]
  refine h.mapBindings (fun binding => ?_) (fun binding hbinding => ?_)
  · split
    · exact hsame binding
    · exact ⟨rfl, rfl, rfl⟩
  · split
    · rename_i hmatch
      exact hpins binding hbinding hmatch
    · exact h.pins_le binding hbinding

/-- A join that has no binding is bound, in agreement with its rate entry. -/
theorem bound {binding : Binding}
    (hnone : ∀ old ∈ record.bindings, old.join ≠ binding.join)
    (hagree : ∀ seen ∈ record.joins, seen.join = binding.join →
      seen.keyRef = binding.keyRef ∧ seen.renewal = binding.renewal)
    (hlength : record.bindings.length < maxBindings) (hpins : binding.pins = []) :
    { record with bindings := record.bindings ++ [binding] }.Sound := { h with
  bindings_nodup := by
    dsimp only
    rw [List.map_append, List.map_singleton]
    refine h.bindings_nodup.append (List.nodup_singleton _) ?_
    intro nonce hold hnew
    obtain ⟨old, hmem, hjoin⟩ := List.mem_map.mp hold
    exact hnone old hmem (hjoin.trans (List.mem_singleton.mp hnew))
  agree := forall_mem_concat h.agree hagree
  bindings_le := by
    dsimp only
    rw [List.length_append, List.length_singleton]
    exact hlength
  pins_le := by
    refine forall_mem_concat h.pins_le ?_
    rw [hpins]
    exact Nat.zero_le _ }

/-- A join that was not seen is counted. -/
theorem counted {seen : SeenJoin} (hcreated : seen.created ≤ record.touched)
    (hunseen : ∀ old ∈ record.joins, old.join ≠ seen.join)
    (hunbound : ∀ binding ∈ record.bindings, binding.join ≠ seen.join) :
    { record with joins := record.joins ++ [seen] }.Sound := { h with
  created_le := forall_mem_concat h.created_le hcreated
  joins_nodup := by
    dsimp only
    rw [List.map_append, List.map_singleton]
    refine h.joins_nodup.append (List.nodup_singleton _) ?_
    intro nonce hold hnew
    obtain ⟨old, hmem, hjoin⟩ := List.mem_map.mp hold
    exact hunseen old hmem (hjoin.trans (List.mem_singleton.mp hnew))
  agree := by
    intro binding hbinding
    refine forall_mem_concat (h.agree binding hbinding) fun hjoin => ?_
    exact absurd hjoin.symm (hunbound binding hbinding) }

theorem join {now : Nat} (hnow : now ≤ record.touched) (nonce : Nonce)
    (keyRef : KeyRef) (deadline : Nat) : (record.join nonce keyRef now deadline).2.Sound := by
  have hrecent := h.recentJoins now
  have hspec := record.join_spec nonce keyRef now deadline
  generalize record.join nonce keyRef now deadline = result at hspec
  obtain ⟨outcome, after⟩ := result
  dsimp only at hspec ⊢
  have hunbound (hnone : record.bindings.find? (fun binding => binding.join = nonce) = none) :
      ∀ old ∈ record.bindings, old.join ≠ nonce := by
    intro old hold hjoin
    exact List.find?_eq_none.mp hnone old hold (decide_eq_true hjoin)
  cases hspec with
  | refused error => exact hrecent
  | extended hbinding hkey =>
    exact hrecent.updateBinding (fun binding hmatch => of_decide_eq_true hmatch)
      (fun _ => ⟨rfl, rfl, rfl⟩) (fun binding hmem _ => h.pins_le binding hmem)
  | @rebound seen hnone hseen hkey hlength =>
    refine hrecent.bound (hunbound hnone) (fun found hfound hjoin => ?_) hlength rfl
    obtain ⟨hmem, hnonce⟩ := of_find?_decide hseen
    have hsame := hrecent.seen_unique hfound hmem (hjoin.trans hnonce.symm)
    rw [hsame]
    exact ⟨hkey, rfl⟩
  | recorded hnone hunseen hjoins hlength =>
    have hunseen : ∀ old ∈ (record.recentJoins now).joins, old.join ≠ nonce := by
      intro old hold hjoin
      exact List.find?_eq_none.mp hunseen old hold (decide_eq_true hjoin)
    have hcounted : Record.Sound { record.recentJoins now with
        joins := (record.recentJoins now).joins ++ [⟨nonce, keyRef, now, 0⟩] } :=
      hrecent.counted hnow hunseen (hunbound hnone)
    refine hcounted.bound (hunbound hnone) (forall_mem_concat ?_ fun _ => ⟨rfl, rfl⟩) hlength rfl
    exact fun found hfound hjoin => absurd hjoin (hunseen found hfound)

theorem renew (nonce : Nonce) (keyRef : KeyRef) (sequence : Nat) :
    (record.renew nonce keyRef sequence).2.Sound := by
  have hspec := record.renew_spec nonce keyRef sequence
  generalize record.renew nonce keyRef sequence = result at hspec
  obtain ⟨outcome, after⟩ := result
  dsimp only at hspec ⊢
  cases hspec with
  | refused error => exact h
  | @raised binding hbinding hsequence =>
    -- the binding of this join is the one that was found
    have hkey : ∀ old ∈ record.bindings, old.join = nonce → old.keyRef = keyRef := by
      intro old hold hjoin
      obtain ⟨hmem, hnonce, hsame⟩ := of_find?_decide hbinding
      rw [h.binding_unique hold hmem (hjoin.trans hnonce.symm)]
      exact hsame
    refine ⟨?_, ?_, ?_, ?_, ?_, ?_⟩
    · intro seen hseen
      rcases mem_updateFirst hseen with hold | ⟨old, hold, rfl⟩
      · exact h.created_le seen hold
      · exact h.created_le old (List.mem_of_find?_eq_some hold)
    · dsimp only
      rw [map_updateFirst]
      · exact h.joins_nodup
      · exact fun _ => rfl
    · dsimp only
      rw [map_updateFirst]
      · exact h.bindings_nodup
      · exact fun _ => rfl
    · intro found hmem seen hseen hjoin
      dsimp only at hmem hseen
      rw [updateFirst_eq_map _ (fun first second hfirst hsecond =>
        (of_decide_eq_true hfirst).1.trans (of_decide_eq_true hsecond).1.symm)
        h.bindings_nodup] at hmem
      rw [updateFirst_eq_map _ (fun first second hfirst hsecond =>
        (of_decide_eq_true hfirst).trans (of_decide_eq_true hsecond).symm)
        h.joins_nodup] at hseen
      obtain ⟨old, hold, rfl⟩ := List.mem_map.mp hmem
      obtain ⟨earlier, hearlier, rfl⟩ := List.mem_map.mp hseen
      have hagree := h.agree old hold earlier hearlier
      by_cases hnonce : old.join = nonce
      · have hboth : decide (old.join = nonce ∧ old.keyRef = keyRef) = true :=
          decide_eq_true ⟨hnonce, hkey old hold hnonce⟩
        rw [if_pos hboth] at hjoin ⊢
        have hearlier : earlier.join = nonce := by
          split at hjoin
          · exact hjoin.trans hnonce
          · exact hjoin.trans hnonce
        rw [if_pos (decide_eq_true hearlier)]
        exact ⟨(hagree (hearlier.trans hnonce.symm)).1, rfl⟩
      · have hneither : ¬ decide (old.join = nonce ∧ old.keyRef = keyRef) = true :=
          fun hmatch => hnonce (of_decide_eq_true hmatch).1
        rw [if_neg hneither] at hjoin ⊢
        have hearlier : earlier.join ≠ nonce := by
          intro heq
          rw [if_pos (decide_eq_true heq)] at hjoin
          exact hnonce (hjoin.symm.trans heq)
        rw [if_neg (fun hmatch => hearlier (of_decide_eq_true hmatch))] at hjoin ⊢
        exact hagree hjoin
    · dsimp only
      rw [length_updateFirst]
      exact h.bindings_le
    · intro found hmem
      rcases mem_updateFirst hmem with hold | ⟨old, hold, rfl⟩
      · exact h.pins_le found hold
      · exact h.pins_le old (List.mem_of_find?_eq_some hold)

theorem protect (nonce : Nonce) (keyRef : KeyRef) (lease : CallLease) :
    (record.protect nonce keyRef lease).2.Sound := by
  have hspec := record.protect_spec nonce keyRef lease
  generalize record.protect nonce keyRef lease = result at hspec
  obtain ⟨outcome, after⟩ := result
  dsimp only at hspec ⊢
  cases hspec with
  | unchanged outcome => exact h
  | @pinned binding hbinding hpins =>
    obtain ⟨hmem, hjoin, _⟩ := of_find?_decide hbinding
    refine h.updateBinding (fun found hmatch => (of_decide_eq_true hmatch).1)
      (fun _ => ⟨rfl, rfl, rfl⟩) (fun found hfound hmatch => ?_)
    have hsame := h.binding_unique hfound hmem
      ((of_decide_eq_true hmatch).1.trans hjoin.symm)
    rw [hsame, List.length_append, List.length_singleton]
    exact hpins

theorem retire (nonce : Nonce) (keyRef : KeyRef) (lease : CallLease) :
    (record.retire nonce keyRef lease).Sound :=
  h.updateBinding (fun _ hmatch => (of_decide_eq_true hmatch).1) (fun _ => ⟨rfl, rfl, rfl⟩)
    fun binding hmem _ => (List.length_filter_le _ _).trans (h.pins_le binding hmem)

/-- Every action on a row that was just visited keeps it sound. -/
theorem apply {now : Nat} (hnow : now ≤ record.touched) (act : Act) :
    (act.apply now record).2.Sound := by
  cases act with
  | requester => exact ⟨h.1, h.2, h.3, h.4, h.5, h.6⟩
  | traffic kind => cases kind <;> exact ⟨h.1, h.2, h.3, h.4, h.5, h.6⟩
  | join nonce keyRef deadline => exact h.join hnow nonce keyRef deadline
  | renew nonce keyRef sequence => exact h.renew nonce keyRef sequence
  | protect nonce keyRef lease => exact h.protect nonce keyRef lease

end

end Sound
end Record
end Mewtual.Voice
