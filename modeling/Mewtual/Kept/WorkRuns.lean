import Mewtual.Kept.Work
import Mewtual.Lib.Run

/-!
# Runs of prepaid work

Requests, retries, other publications, crashes and openings of a store of transfers, in any order.
The state of a run carries what all permissions returned so far cover, by transfer and grant. Three
amounts then never exceed the allowance of the grant together: what was covered, what the window in
memory holds, and what is left in any record that the disk may bring back.

Main results:

- Theorem {lit}`Prepaid.step`: one event keeps the accounts.
- Theorem {lit}`keepWork_prepaid`: the bounds over every run.
-/

namespace Mewtual
namespace Kept

/-! ## Events -/

namespace Store

/-- The allowance that the active run holds of a transfer. -/
def held (store : Store) (index : Nat) : KeepAllowance :=
  match store.active with
  | none => .zero
  | some active => if active.transfer = some index then heldBy active.window else .zero

/-- Publish a record of the transfer at one place. -/
def publishAt [Blake3] [Sealing] (key : Hash32) (nonce : Fixed 24) (io : ReplaceStep → Effect)
    (index : Nat) (next : Record) (store : Store) : Store :=
  match store.transfers[index]? with
  | none => store
  | some transfer =>
    { store with transfers :=
        store.transfers.set index (transfer.publish key nonce io next).2 }

/-- Give an exhausted transfer another allowance. -/
def retryOwned [Blake3] [Sealing] (key : Hash32) (nonce : Fixed 24) (io : ReplaceStep → Effect)
    (identity : Owner) (request : KeepRetry) (store : Store) :
    CallEnd KeepRetryReceipt × Store :=
  match store.ready with
  | .error error => (.failed error, store)
  | .ok () =>
    match store.transfers.findIdx? fun transfer => transfer.record.owner = identity with
    | none => (.failed .malformed, store)
    | some index =>
      match store.transfers[index]? with
      | none => (.panicked, store)
      | some transfer =>
        match transfer.record.lastRetry.filter fun receipt => receipt.request = request with
        | some receipt => (.returned receipt, store)
        | none =>
          if store.active.isSome then
            (.failed (.io "Pause the active transfer first."), store)
          else
            match transfer.record.retry request with
            | .error error => (.failed error, store)
            | .ok (next, receipt) =>
              if next = transfer.record then (.returned receipt, store)
              else
                match (transfer.publish key nonce io next).1 with
                | .published =>
                  (.returned receipt, store.publishAt key nonce io index next)
                | .failed error =>
                  (.failed error, store.publishAt key nonce io index next)
                | .crashed => (.crashed, store.publishAt key nonce io index next)

end Store

/-- What happens to a store. An update is any other publication; its callers leave the grant of the
record alone. After a crash every directory comes back as one of its surviving images. -/
inductive KeepEvent where
  | work (token : Nat) (network : Option KeepNetworkWork) (mono : UInt64) (nonce : Fixed 24)
      (io : ReplaceStep → Effect)
  | start (token : Nat) (transfer : Option Nat)
  | release
  | retry (identity : Owner) (request : KeepRetry) (nonce : Fixed 24) (io : ReplaceStep → Effect)
  | update (index : Nat) (next : Record) (nonce : Fixed 24) (io : ReplaceStep → Effect)
  | crash (images : Nat → Slots Bytes)
  | reopen (index : Nat) (scope : KeepScope) (name : String) (io : OpenIo)
      (leaves : List (Cid × Nat))
  | attach (fault : Option String)

/-- A store with what the permissions returned so far cover, by transfer and grant. -/
structure Keeping where
  store : Store
  covered : Nat → UInt64 → Resource → Nat

namespace Keeping

/-- Count a permission: its cost, and a slice if it began a window. -/
def cover (state : Keeping) (network : Option KeepNetworkWork) (mono : UInt64) (work : KeepWork) :
    Nat → UInt64 → Resource → Nat :=
  match state.store.active with
  | none => state.covered
  | some active =>
    match active.transfer with
    | none => state.covered
    | some index =>
      Function.update state.covered index
        (Function.update (state.covered index) work.grant fun resource =>
          state.covered index work.grant resource + (networkCost network).amount resource +
            freshSlice (usable active.window network mono) resource)

variable [Blake3] [Sealing]

def step (key : Hash32) (state : Keeping) : KeepEvent → Keeping
  | .work token network mono nonce io =>
    let (result, store) := state.store.keepWork key token network mono nonce io
    match result with
    | .returned work => ⟨store, state.cover network mono work⟩
    | _ => { state with store := store }
  | .start token transfer =>
    { state with store := { state.store with active := some ⟨token, transfer, none, true⟩ } }
  | .release => { state with store := { state.store with active := none } }
  | .retry identity request nonce io =>
    { state with store := (state.store.retryOwned key nonce io identity request).2 }
  | .update index next nonce io =>
    { state with store := state.store.publishAt key nonce io index next }
  | .crash images =>
    { state with store := { state.store with
        active := none
        transfers := state.store.transfers.mapIdx fun index transfer =>
          transfer.crash (images index) } }
  | .reopen index scope name io leaves =>
    { state with store := { state.store with
        active := none
        transfers := state.store.transfers.modify index fun transfer =>
          transfer.reopen key scope name io leaves } }
  | .attach fault => { state with store := { state.store with active := none, fault := fault } }

section Work

variable {key : Hash32} {state : Keeping} {token : Nat} {network : Option KeepNetworkWork}
  {mono : UInt64} {nonce : Fixed 24} {io : ReplaceStep → Effect} {store : Store}

theorem step_of_denied {result : CallEnd KeepWork}
    (h : state.store.keepWork key token network mono nonce io = (result, store))
    (hdenied : result.Denied) :
    state.step key (.work token network mono nonce io) = { state with store := store } := by
  unfold step
  dsimp only
  rw [h]
  cases result with
  | returned | panicked => exact hdenied.elim
  | failed | crashed => rfl

theorem step_of_returned {granted : KeepWork}
    (h : state.store.keepWork key token network mono nonce io = (.returned granted, store)) :
    state.step key (.work token network mono nonce io) =
      ⟨store, state.cover network mono granted⟩ := by
  unfold step
  dsimp only
  rw [h]

end Work

/-- A run begins on a transfer that exists, when no other is active. An update keeps the grant. A
crash brings back what survives. -/
def Allowed (key : Hash32) (state : Keeping) : KeepEvent → Prop
  | .start _ transfer =>
    state.store.active = none ∧ ∀ index ∈ transfer, index < state.store.transfers.length
  | .update index next _ _ =>
    ∀ transfer, state.store.transfers[index]? = some transfer →
      next.grant = transfer.record.grant
  | .crash images =>
    ∀ (index : Nat) (transfer : Transfer), state.store.transfers[index]? = some transfer →
      transfer.volume.Survives (Torn key) (images index)
  | _ => True

end Keeping

/-! ## Accounts -/

/-- What was covered, what is held and what a record still grants are within the allowance of its
grant, and nothing was covered of a later grant. -/
structure Account (ceiling : KeepAllowance) (spent : UInt64 → Resource → Nat)
    (held : KeepAllowance) (record : Record) : Prop where
  initial : record.initialAllowance = ceiling
  later : ∀ grant, record.grant < grant → ∀ resource, spent grant resource = 0
  balance : ∀ resource, spent record.grant resource + held.amount resource +
    record.remaining.amount resource ≤ ceiling.amount resource

namespace Account

variable {ceiling held less : KeepAllowance} {spent : UInt64 → Resource → Nat} {record : Record}

theorem hold_less (h : Account ceiling spent held record)
    (hless : ∀ resource, less.amount resource ≤ held.amount resource) :
    Account ceiling spent less record := by
  refine ⟨h.initial, h.later, fun resource => ?_⟩
  have hbalance := h.balance resource
  have hle := hless resource
  omega

theorem hold_zero (h : Account ceiling spent held record) : Account ceiling spent .zero record :=
  h.hold_less fun resource => by
    rw [KeepAllowance.amount_zero]
    exact Nat.zero_le _

/-- A successor keeps the account; one of another grant only while nothing is held. -/
theorem follow [Blake3] (h : Account ceiling spent held record) {next : Record}
    (hfollows : record.Follows next) (hgrant : next.grant = record.grant ∨ held = .zero) :
    Account ceiling spent held next := by
  have hceiling : next.initialAllowance = ceiling := hfollows.continues.ceiling.trans h.initial
  rcases hfollows.grant_cases with ⟨hsame, hless, -⟩ | ⟨hne, -, hnext, hremaining, -⟩
  · refine ⟨hceiling, fun grant hlater => h.later grant (hsame ▸ hlater), fun resource => ?_⟩
    have hbalance := h.balance resource
    have hle := KeepAllowance.atMost_iff.mp hless resource
    rw [hsame]
    omega
  · -- The next grant is whole: nothing of it was covered yet.
    have hlt : record.grant < next.grant := by
      rw [UInt64.lt_iff_toNat_lt]
      omega
    have hzero : held = .zero := hgrant.resolve_left hne
    refine ⟨hceiling, fun grant hlater => h.later grant ?_, fun resource => ?_⟩
    · rw [UInt64.lt_iff_toNat_lt] at hlt hlater ⊢
      omega
    · rw [h.later next.grant hlt resource, hzero, KeepAllowance.amount_zero, hremaining, h.initial]
      omega

end Account

/-- The accounts of every transfer of a store. -/
structure Prepaid [Sealing] (key : Hash32) (ceiling : Nat → KeepAllowance) (state : Keeping) :
    Prop where
  place : ∀ active index, state.store.active = some active → active.transfer = some index →
    index < state.store.transfers.length
  transfers : ∀ (index : Nat) (transfer : Transfer),
    state.store.transfers[index]? = some transfer →
    transfer.Holds key (Account (ceiling index) (state.covered index) (state.store.held index))
  bound : ∀ index < state.store.transfers.length, ∀ grant resource,
    state.covered index grant resource ≤ (ceiling index).amount resource

namespace Store

theorem held_of_active {store : Store} {active : Active} {index : Nat}
    (hactive : store.active = some active) (hplace : active.transfer = some index) :
    store.held index = heldBy active.window := by
  unfold held
  rw [hactive]
  exact if_pos hplace

theorem held_put (store : Store) (index : Nat) (after : Transfer) (active : Active) (place : Nat) :
    (store.put index after active).held place =
      if active.transfer = some place then heldBy active.window else .zero := rfl

theorem held_of_idle {store : Store} (h : store.active = none) (index : Nat) :
    store.held index = .zero := by
  unfold held
  rw [h]

end Store

namespace Prepaid

variable [Blake3] [Sealing] {key : Hash32} {ceiling : Nat → KeepAllowance} {state : Keeping}

omit [Blake3] in
/-- Without an active run only the disks count. -/
theorem of_idle {fault : Option String} {transfers : List Transfer} (h : Prepaid key ceiling state)
    (hlength : transfers.length = state.store.transfers.length)
    (htransfers : ∀ (index : Nat) (transfer : Transfer), transfers[index]? = some transfer →
      transfer.Holds key (Account (ceiling index) (state.covered index) .zero)) :
    Prepaid key ceiling ⟨⟨fault, transfers, none⟩, state.covered⟩ where
  place _ _ hactive _ := by cases hactive
  transfers := htransfers
  bound index hlt := h.bound index (hlength ▸ hlt)

variable {index : Nat}

omit [Blake3] in
theorem holds_zero (h : Prepaid key ceiling state) {transfer : Transfer}
    (htransfer : state.store.transfers[index]? = some transfer) :
    transfer.Holds key (Account (ceiling index) (state.covered index) .zero) :=
  (h.transfers index transfer htransfer).mono fun _ haccount => haccount.hold_zero

section Active

variable {active : Active} (h : Prepaid key ceiling state)
  (hactive : state.store.active = some active) (hplace : active.transfer = some index)

include h hactive hplace

omit [Blake3] in
/-- The active run changes its transfer, its window and what was covered of the transfer. -/
theorem put {after : Transfer} {window : Option WorkWindow} (live : Bool)
    {spent : UInt64 → Resource → Nat}
    (hafter : after.Holds key (Account (ceiling index) spent (heldBy window)))
    (hbound : ∀ grant resource, spent grant resource ≤ (ceiling index).amount resource) :
    Prepaid key ceiling
      ⟨state.store.put index after { active with window := window, live := live },
        Function.update state.covered index spent⟩ := by
  refine ⟨fun other place hother hplaced => ?_, fun place transfer htransfer => ?_,
    fun place hlt grant resource => ?_⟩
  · cases hother
    have hlt := h.place active place hactive hplaced
    simpa [Store.put] using hlt
  · by_cases heq : place = index
    · subst heq
      have hlt := h.place active place hactive hplace
      have hget : transfer = after := by
        simpa [Store.put, List.getElem?_set_self hlt] using htransfer.symm
      dsimp only
      rw [hget, Function.update_self, Store.held_put, if_pos hplace]
      exact hafter
    · have hget : state.store.transfers[place]? = some transfer := by
        simpa [Store.put, List.getElem?_set_ne (Ne.symm heq)] using htransfer
      have hother : active.transfer ≠ some place := fun hsame => by
        rw [hplace] at hsame
        exact heq (Option.some.inj hsame).symm
      have hheld := h.transfers place transfer hget
      dsimp only
      rw [Function.update_of_ne heq, Store.held_put, if_neg hother]
      unfold Store.held at hheld
      rw [hactive] at hheld
      dsimp only at hheld
      rwa [if_neg hother] at hheld
  · dsimp only
    by_cases heq : place = index
    · subst heq
      rw [Function.update_self]
      exact hbound grant resource
    · rw [Function.update_of_ne heq]
      refine h.bound place ?_ grant resource
      simpa [Store.put] using hlt

omit [Blake3] in
/-- The window of the active run and the record of its transfer are within the allowance. -/
theorem window_le {transfer : Transfer}
    (htransfer : state.store.transfers[index]? = some transfer)
    (hpoisoned : transfer.poisoned = false) (resource : Resource) :
    (heldBy active.window).amount resource + transfer.record.remaining.amount resource ≤
      (ceiling index).amount resource := by
  have hbalance := ((h.transfers index transfer htransfer).record hpoisoned).balance resource
  rw [Store.held_of_active hactive hplace] at hbalance
  omega

/-- What a request may return: it is denied, or its transfer is ready with a record that no longer
grants what is covered. -/
theorem work_step (hseal : Sealing.Lawful) {transfer after : Transfer} {nonce : Fixed 24}
    {io : ReplaceStep → Effect} {network : Option KeepNetworkWork} {mono : UInt64}
    {result : CallEnd KeepWork} {window : Option WorkWindow}
    (htransfer : state.store.transfers[index]? = some transfer)
    (hpoisoned : transfer.poisoned = false)
    (hstep : WorkStep key nonce io transfer active.token active.window
      (usable active.window network mono) network result after window)
    (live : Bool) :
    (result.Denied ∧ Prepaid key ceiling ⟨state.store.put index after
      { active with window := window, live := live }, state.covered⟩) ∨
    ∃ work, result = .returned work ∧ after.Ready key ∧ after.record.grant = work.grant ∧
      Prepaid key ceiling ⟨state.store.put index after
        { active with window := window, live := live }, state.cover network mono work⟩ := by
  have hholds := h.transfers index transfer htransfer
  rw [Store.held_of_active hactive hplace] at hholds
  have hlt := h.place active index hactive hplace
  have hsame : ∀ {after : Transfer} {window : Option WorkWindow},
      after.Holds key (Account (ceiling index) (state.covered index) (heldBy window)) →
      Prepaid key ceiling ⟨state.store.put index after
        { active with window := window, live := live }, state.covered⟩ := by
    intro after window hafter
    have hput := h.put hactive hplace live hafter (h.bound index hlt)
    rwa [Function.update_eq_self] at hput
  have husable : ∀ record, Account (ceiling index) (state.covered index) (heldBy active.window)
      record → Account (ceiling index) (state.covered index)
        (heldBy (usable active.window network mono)) record := fun record haccount =>
    haccount.hold_less (heldBy_usable_le _ _ _)
  cases hstep with
  | untouched _ hresult _ hwindow =>
    refine .inl ⟨hresult, hsame ?_⟩
    rcases hwindow with rfl | rfl
    · exact hholds
    · exact hholds.mono husable
  | published _ hresult next hgrant =>
    refine .inl ⟨hresult, hsame ?_⟩
    refine Transfer.Holds.mono (hholds.publish hseal (fun hclean hsuccessor => ?_) nonce io)
      husable
    exact (hholds.record hclean).follow (Record.follows_of_validateSuccessor hsuccessor)
      (.inl hgrant)
  | granted _ window hafter hgrant hmoved =>
    have hready : after.Ready key ∧ after.record.initialAllowance = ceiling index := by
      have haccount := hholds.record hpoisoned
      rcases hafter with rfl | ⟨next, hpublish⟩
      · exact ⟨hholds.ready hpoisoned, haccount.initial⟩
      · obtain ⟨-, hsuccessor, hrecord, hclean⟩ := Transfer.publish_published hpublish
        have hfollows := Record.follows_of_validateSuccessor hsuccessor
        have hpublished := hholds.publish hseal (fun _ _ => haccount.follow hfollows
          (.inl (by rw [← hrecord, hgrant]))) nonce io
        rw [hpublish] at hpublished
        refine ⟨hpublished.ready hclean, ?_⟩
        rw [hrecord, hfollows.continues.ceiling]
        exact haccount.initial
    obtain ⟨hready, hinitial⟩ := hready
    have haccount := husable _ (hholds.record hpoisoned)
    refine .inr ⟨_, rfl, hready, rfl, ?_⟩
    have hcover : state.cover network mono
        ⟨active.token, after.record.grant, window.deadline⟩ =
        Function.update state.covered index (Function.update (state.covered index)
          after.record.grant fun resource => state.covered index after.record.grant resource +
            (networkCost network).amount resource +
            freshSlice (usable active.window network mono) resource) := by
      unfold Keeping.cover
      rw [hactive]
      dsimp only
      rw [hplace]
    have hbalance : ∀ resource, state.covered index after.record.grant resource +
        (networkCost network).amount resource +
        freshSlice (usable active.window network mono) resource +
        window.remaining.amount resource + after.record.remaining.amount resource ≤
        (ceiling index).amount resource := by
      intro resource
      have hbefore := haccount.balance resource
      have hsum := hmoved resource
      rw [hgrant]
      omega
    rw [hcover]
    refine h.put hactive hplace live (hready.holds ⟨hinitial, ?_, ?_⟩) ?_
    · intro grant hlater resource
      rw [Function.update_of_ne (UInt64.ne_of_lt hlater).symm]
      exact haccount.later grant (hgrant ▸ hlater) resource
    · intro resource
      rw [Function.update_self]
      exact hbalance resource
    · intro grant resource
      by_cases heq : grant = after.record.grant
      · subst heq
        rw [Function.update_self]
        have hle := hbalance resource
        omega
      · rw [Function.update_of_ne heq]
        exact h.bound index hlt grant resource

end Active

/-! ## One event -/

/-- A request keeps the accounts and never stops the program. A permission comes after a durable
record that no longer grants it. -/
theorem work (hseal : Sealing.Lawful) (h : Prepaid key ceiling state) (token : Nat)
    (network : Option KeepNetworkWork) (mono : UInt64) (nonce : Fixed 24)
    (io : ReplaceStep → Effect) :
    let outcome := state.store.keepWork key token network mono nonce io
    let after := state.step key (.work token network mono nonce io)
    outcome.1 ≠ .panicked ∧ Prepaid key ceiling after ∧
      ∀ granted active index, outcome.1 = .returned granted → state.store.active = some active →
        active.transfer = some index →
        ∃ transfer, after.store.transfers[index]? = some transfer ∧ transfer.Ready key ∧
          transfer.record.grant = granted.grant := by
  intro outcome after
  rcases Store.keepWork_fits key nonce io
    (fun active index transfer hactive hplace htransfer hpoisoned =>
      h.window_le hactive hplace htransfer hpoisoned) h.place token network mono with
    ⟨result, hresult, hdenied | ⟨legacy, deadline, hlegacy, hnone, rfl⟩⟩ |
    ⟨active, index, transfer, result, stored, window, live, hactive, rfl, hplace, htransfer,
      hpoisoned, hresult, hstep⟩
  · have hout : outcome = (result, state.store) := hresult
    have hafter : after = state := Keeping.step_of_denied hresult hdenied
    rw [hout, hafter]
    exact ⟨hdenied.ne_panicked, h, fun granted _ _ hgranted =>
      absurd hgranted (hdenied.ne_returned granted)⟩
  · have hout : outcome = (.returned ⟨token, 0, deadline⟩, state.store) := hresult
    have hcover : state.cover network mono ⟨token, 0, deadline⟩ = state.covered := by
      unfold Keeping.cover
      rw [hlegacy]
      dsimp only
      rw [hnone]
    have hafter : after = state := by
      refine (Keeping.step_of_returned hresult).trans ?_
      rw [hcover]
    rw [hout, hafter]
    refine ⟨nofun, h, ?_⟩
    intro granted active index _ hactive hplace
    rw [hlegacy] at hactive
    cases hactive
    rw [hnone] at hplace
    cases hplace
  · have hout : outcome = (result, state.store.put index stored
        { active with window := window, live := live }) := hresult
    rcases h.work_step hactive hplace hseal htransfer hpoisoned hstep live with
      ⟨hdenied, hkept⟩ | ⟨granted, rfl, hready, hgrant, hkept⟩
    · have hafter : after = ⟨state.store.put index stored
          { active with window := window, live := live }, state.covered⟩ :=
        Keeping.step_of_denied hresult hdenied
      rw [hout, hafter]
      exact ⟨hdenied.ne_panicked, hkept, fun granted _ _ hgranted =>
        absurd hgranted (hdenied.ne_returned granted)⟩
    · have hafter : after = ⟨state.store.put index stored
          { active with window := window, live := live }, state.cover network mono granted⟩ :=
        Keeping.step_of_returned hresult
      rw [hout, hafter]
      refine ⟨nofun, hkept, ?_⟩
      intro other running place hother hrunning hplaced
      cases hother
      rw [hactive] at hrunning
      cases hrunning
      rw [hplace] at hplaced
      cases hplaced
      exact ⟨stored, List.getElem?_set_self (h.place active index hactive hplace), hready, hgrant⟩

/-- Another publication, of the same grant or while nothing is held. -/
theorem publishAt (hseal : Sealing.Lawful) (h : Prepaid key ceiling state) {next : Record}
    (nonce : Fixed 24) (io : ReplaceStep → Effect)
    (hgrant : ∀ transfer, state.store.transfers[index]? = some transfer →
      next.grant = transfer.record.grant ∨ state.store.held index = .zero) :
    Prepaid key ceiling { state with store := state.store.publishAt key nonce io index next } := by
  unfold Store.publishAt
  cases htransfer : state.store.transfers[index]? with
  | none => exact h
  | some transfer =>
    refine ⟨fun active place hactive hplace => ?_, fun place found hfound => ?_,
      fun place hlt => ?_⟩
    · have hlt := h.place active place hactive hplace
      simpa using hlt
    · dsimp only at hfound
      by_cases heq : place = index
      · subst heq
        obtain ⟨hlt, -⟩ := List.getElem?_eq_some_iff.mp htransfer
        rw [List.getElem?_set_self hlt] at hfound
        cases hfound
        have hholds := h.transfers place transfer htransfer
        refine hholds.publish hseal (fun hclean hsuccessor => ?_) nonce io
        exact (hholds.record hclean).follow (Record.follows_of_validateSuccessor hsuccessor)
          (hgrant transfer htransfer)
      · rw [List.getElem?_set_ne (Ne.symm heq)] at hfound
        exact h.transfers place found hfound
    · refine h.bound place ?_
      simpa using hlt

end Prepaid

/-- A retry leaves the store alone, or publishes while no run is active. -/
theorem Store.retryOwned_cases [Blake3] [Sealing] (key : Hash32) (nonce : Fixed 24)
    (io : ReplaceStep → Effect) (identity : Owner) (request : KeepRetry) (store : Store) :
    (store.retryOwned key nonce io identity request).2 = store ∨
      store.active = none ∧ ∃ index next,
        (store.retryOwned key nonce io identity request).2 =
          store.publishAt key nonce io index next := by
  unfold retryOwned
  cases store.ready with
  | error error => exact .inl rfl
  | ok =>
    dsimp only
    cases store.transfers.findIdx? fun transfer => transfer.record.owner = identity with
    | none => exact .inl rfl
    | some index =>
      dsimp only
      cases store.transfers[index]? with
      | none => exact .inl rfl
      | some transfer =>
        dsimp only
        split
        · exact .inl rfl
        split
        · exact .inl rfl
        rename_i hidle
        rw [Bool.not_eq_true, Option.isSome_eq_false_iff, Option.isNone_iff_eq_none] at hidle
        split
        · exact .inl rfl
        · rename_i next receipt hretry
          split
          · exact .inl rfl
          · refine .inr ⟨hidle, index, next, ?_⟩
            split <;> rfl

namespace Prepaid

variable [Blake3] [Sealing] {key : Hash32} {ceiling : Nat → KeepAllowance} {state : Keeping}

/-- One event keeps the accounts. -/
theorem step (hseal : Sealing.Lawful) {event : KeepEvent} (h : Prepaid key ceiling state)
    (hallowed : state.Allowed key event) : Prepaid key ceiling (state.step key event) := by
  cases event with
  | work token network mono nonce io => exact (h.work hseal token network mono nonce io).2.1
  | start token place =>
    obtain ⟨hidle, hplace⟩ := hallowed
    refine ⟨fun active index hactive hindex => ?_, fun index transfer htransfer => ?_, h.bound⟩
    · cases hactive
      exact hplace index hindex
    · have hheld : Store.held { state.store with active := some ⟨token, place, none, true⟩ }
          index = .zero := by
        unfold Store.held
        dsimp only
        split <;> rfl
      refine Transfer.Holds.mono (h.holds_zero htransfer) fun record haccount => ?_
      rw [show (state.step key (.start token place)).store.held index = .zero from hheld]
      exact haccount
  | release | attach => exact h.of_idle rfl fun index transfer htransfer => h.holds_zero htransfer
  | retry identity request nonce io =>
    dsimp only [Keeping.step]
    rcases Store.retryOwned_cases key nonce io identity request state.store with
      hsame | ⟨hidle, index, next, hpublish⟩
    · rw [hsame]
      exact h
    · rw [hpublish]
      exact h.publishAt hseal nonce io fun _ _ => .inr (Store.held_of_idle hidle index)
  | update index next nonce io =>
    exact h.publishAt hseal nonce io fun transfer htransfer => .inl (hallowed transfer htransfer)
  | crash images =>
    refine h.of_idle List.length_mapIdx fun index transfer htransfer => ?_
    rw [List.getElem?_mapIdx, Option.map_eq_some_iff] at htransfer
    obtain ⟨before, hbefore, rfl⟩ := htransfer
    exact (h.holds_zero hbefore).crash (hallowed index before hbefore)
  | reopen place scope name io leaves =>
    refine h.of_idle (List.length_modify _ _ _) fun index transfer htransfer => ?_
    rw [List.getElem?_modify, Option.map_eq_map, Option.map_eq_some_iff] at htransfer
    obtain ⟨before, hbefore, rfl⟩ := htransfer
    have hholds := h.holds_zero hbefore
    split
    · exact hholds.reopen scope name io leaves
    · exact hholds

end Prepaid

/-! ## Records never regain an allowance -/

section Regaining

variable [Blake3] [Sealing] {key : Hash32} {good : Record → Prop}

/-- A request leaves its transfer, or publishes on it. -/
theorem WorkStep.after_cases {nonce : Fixed 24} {io : ReplaceStep → Effect}
    {transfer after : Transfer} {token : Nat} {held usable window : Option WorkWindow}
    {network : Option KeepNetworkWork} {result : CallEnd KeepWork}
    (h : WorkStep key nonce io transfer token held usable network result after window) :
    after = transfer ∨ ∃ next, after = (transfer.publish key nonce io next).2 := by
  cases h with
  | untouched => exact .inl rfl
  | published _ _ next => exact .inr ⟨next, rfl⟩
  | granted _ _ hafter =>
    rcases hafter with rfl | ⟨next, hpublish⟩
    · exact .inl rfl
    · exact .inr ⟨next, by rw [hpublish]⟩

variable (hseal : Sealing.Lawful)
  (hinherit : ∀ record next, good record → record.Follows next → good next)
  {ceiling : Nat → KeepAllowance} {index : Nat} {transfer : Transfer}

include hseal hinherit

/-- A property that successors inherit is kept by any publication. -/
theorem Transfer.Holds.publish_inherited (h : transfer.Holds key good) (nonce : Fixed 24)
    (io : ReplaceStep → Effect) (next : Record) :
    (transfer.publish key nonce io next).2.Holds key good :=
  h.publish hseal (fun hclean hsuccessor => hinherit _ _ (h.record hclean)
    (Record.follows_of_validateSuccessor hsuccessor)) nonce io

theorem Store.holds_publishAt {store : Store} (htransfer : store.transfers[index]? = some transfer)
    (h : transfer.Holds key good) (nonce : Fixed 24) (io : ReplaceStep → Effect) (place : Nat)
    (next : Record) :
    ∃ after, (store.publishAt key nonce io place next).transfers[index]? = some after ∧
      after.Holds key good := by
  unfold Store.publishAt
  cases hplace : store.transfers[place]? with
  | none => exact ⟨transfer, htransfer, h⟩
  | some found =>
    by_cases heq : place = index
    · subst heq
      rw [htransfer] at hplace
      cases hplace
      obtain ⟨hlt, -⟩ := List.getElem?_eq_some_iff.mp htransfer
      exact ⟨_, List.getElem?_set_self hlt, h.publish_inherited hseal hinherit nonce io next⟩
    · exact ⟨transfer, (List.getElem?_set_ne heq).trans htransfer, h⟩

/-- A property that successors inherit is kept by every event. -/
theorem Prepaid.holds_step {state : Keeping} (h : Prepaid key ceiling state)
    (htransfer : state.store.transfers[index]? = some transfer) (hholds : transfer.Holds key good)
    {event : KeepEvent} (hallowed : state.Allowed key event) :
    ∃ after, (state.step key event).store.transfers[index]? = some after ∧
      after.Holds key good := by
  cases event with
  | work token network mono nonce io =>
    have hstore : (state.step key (.work token network mono nonce io)).store =
        (state.store.keepWork key token network mono nonce io).2 := by
      dsimp only [Keeping.step]
      split <;> rfl
    rw [hstore]
    rcases Store.keepWork_fits key nonce io
      (fun active index transfer hactive hplace htransfer hpoisoned =>
        h.window_le hactive hplace htransfer hpoisoned) h.place token network mono with
      ⟨result, hresult, -⟩ |
      ⟨active, place, found, result, stored, window, live, -, -, -, hfound, -, hresult, hstep⟩
    · rw [hresult]
      exact ⟨transfer, htransfer, hholds⟩
    · rw [hresult]
      by_cases heq : place = index
      · subst heq
        rw [htransfer] at hfound
        cases hfound
        obtain ⟨hlt, -⟩ := List.getElem?_eq_some_iff.mp htransfer
        refine ⟨stored, List.getElem?_set_self hlt, ?_⟩
        rcases hstep.after_cases with rfl | ⟨next, rfl⟩
        · exact hholds
        · exact hholds.publish_inherited hseal hinherit nonce io next
      · exact ⟨transfer, (List.getElem?_set_ne heq).trans htransfer, hholds⟩
  | start | release | attach => exact ⟨transfer, htransfer, hholds⟩
  | retry identity request nonce io =>
    dsimp only [Keeping.step]
    rcases Store.retryOwned_cases key nonce io identity request state.store with
      hsame | ⟨-, place, next, hpublish⟩
    · rw [hsame]
      exact ⟨transfer, htransfer, hholds⟩
    · rw [hpublish]
      exact Store.holds_publishAt hseal hinherit htransfer hholds nonce io place next
  | update place next nonce io =>
    exact Store.holds_publishAt hseal hinherit htransfer hholds nonce io place next
  | crash images =>
    refine ⟨transfer.crash (images index), ?_, hholds.crash (hallowed index transfer htransfer)⟩
    dsimp only [Keeping.step]
    rw [List.getElem?_mapIdx, htransfer]
    rfl
  | reopen place scope name io leaves =>
    dsimp only [Keeping.step]
    rw [List.getElem?_modify, htransfer, Option.map_eq_map, Option.map_some]
    by_cases heq : place = index
    · rw [if_pos heq]
      exact ⟨_, rfl, hholds.reopen scope name io leaves⟩
    · rw [if_neg heq]
      exact ⟨_, rfl, hholds⟩

/-- A property that successors inherit, once it holds of the disk of a transfer, holds along every
run. -/
theorem run_holds {events : List KeepEvent} :
    ∀ {state : Keeping} {transfer : Transfer}, Prepaid key ceiling state →
      state.store.transfers[index]? = some transfer → transfer.Holds key good →
      Obeys (Keeping.step key) (Keeping.Allowed key) state events →
      ∃ after, (run (Keeping.step key) state events).store.transfers[index]? = some after ∧
        after.Holds key good := by
  induction events with
  | nil =>
    intro state transfer _ htransfer hholds _
    exact ⟨transfer, htransfer, hholds⟩
  | cons event later ih =>
    rintro state transfer hprepaid htransfer hholds ⟨hallowed, hlater⟩
    obtain ⟨after, hafter, hkept⟩ :=
      hprepaid.holds_step hseal hinherit htransfer hholds hallowed
    exact ih (hprepaid.step hseal hallowed) hafter hkept hlater

omit hseal hinherit

/-- A record of a later grant, or of the same grant with no larger allowance. -/
def NotAbove (old record : Record) : Prop :=
  old.grant < record.grant ∨
    (record.grant = old.grant ∧ record.remaining.atMost old.remaining = true)

omit [Sealing] in
theorem notAbove_inherited (old record next : Record) (h : NotAbove old record)
    (hfollows : record.Follows next) : NotAbove old next := by
  rcases hfollows.grant_cases with ⟨hsame, hless, -⟩ | ⟨-, -, hnext, -⟩
  · rcases h with hlater | ⟨hgrant, hremaining⟩
    · exact .inl (hsame ▸ hlater)
    · refine .inr ⟨hsame.trans hgrant, KeepAllowance.atMost_iff.mpr fun resource => ?_⟩
      exact Nat.le_trans (KeepAllowance.atMost_iff.mp hless resource)
        (KeepAllowance.atMost_iff.mp hremaining resource)
  · left
    rw [UInt64.lt_iff_toNat_lt]
    rcases h with hlater | ⟨hgrant, -⟩
    · rw [UInt64.lt_iff_toNat_lt] at hlater
      omega
    · rw [hgrant] at hnext
      omega

end Regaining

/-! ## Runs -/

section Runs

variable [Blake3] [Sealing] {key : Hash32}

/-- A store with every transfer ready, before any permission was returned. -/
structure Started (key : Hash32) (state : Keeping) : Prop where
  idle : state.store.active = none
  ready : ∀ transfer ∈ state.store.transfers, transfer.Ready key
  covered : ∀ index grant resource, state.covered index grant resource = 0

/-- The allowance of one grant of a transfer. -/
def Keeping.ceiling (state : Keeping) (index : Nat) : KeepAllowance :=
  (state.store.transfers[index]?).elim .zero fun transfer => transfer.record.initialAllowance

omit [Blake3] in
/-- A record that was read is valid. -/
theorem validate_of_readRecord {record : Record} {bytes : Bytes}
    (h : readRecord key (some bytes) = .ok (some record)) : record.validate = .ok () := by
  obtain ⟨-, h⟩ := guard_eq_ok.mp h
  obtain ⟨plain, -, h⟩ := bind_eq_ok.mp h
  obtain ⟨decoded, hdecode, h⟩ := bind_eq_ok.mp h
  cases h
  exact (Record.encode_of_decode hdecode).2

omit [Blake3] in
theorem Started.prepaid {state : Keeping} (h : Started key state) :
    Prepaid key state.ceiling state := by
  refine ⟨fun active index hactive => ?_, fun index transfer htransfer => ?_,
    fun index _ grant resource => ?_⟩
  · rw [h.idle] at hactive
    cases hactive
  · have hready := h.ready transfer (List.mem_of_getElem? htransfer)
    obtain ⟨bytes, -, hread, -⟩ := hready.stored
    have hvalid := Record.valid_of_validate (validate_of_readRecord hread)
    have hceiling : state.ceiling index = transfer.record.initialAllowance := by
      unfold Keeping.ceiling
      rw [htransfer]
      rfl
    refine hready.holds ⟨hceiling.symm, fun grant _ resource => h.covered index grant resource,
      fun resource => ?_⟩
    rw [h.covered, Store.held_of_idle h.idle, KeepAllowance.amount_zero, hceiling]
    have hle := KeepAllowance.atMost_iff.mp hvalid.remaining resource
    omega
  · rw [h.covered]
    exact Nat.zero_le _

theorem run_prepaid (hseal : Sealing.Lawful) {start : Keeping} (hstart : Started key start)
    {events : List KeepEvent}
    (hobeys : Obeys (Keeping.step key) (Keeping.Allowed key) start events) :
    Prepaid key start.ceiling (run (Keeping.step key) start events) :=
  hobeys.run_induction (Prepaid key start.ceiling) hstart.prepaid fun _ _ h hallowed =>
    h.step hseal hallowed

/-- Network work is prepaid. In every run of requests, retries, publications, crashes and openings:

- what the permissions of a grant cover is within its initial allowance;
- no request leaves the range of a counter, and a permission comes with a durable record of its
  grant whose remaining allowance, with everything covered, is within the initial one;
- between two moments at which a transfer is in use with the same grant, its remaining allowance
  does not grow, whatever crashes lie between. -/
theorem keepWork_prepaid (hseal : Sealing.Lawful) (start : Keeping) (hstart : Started key start)
    (events : List KeepEvent)
    (hobeys : Obeys (Keeping.step key) (Keeping.Allowed key) start events) :
    (∀ index < start.store.transfers.length, ∀ grant resource,
      (run (Keeping.step key) start events).covered index grant resource ≤
        (start.ceiling index).amount resource) ∧
    (∀ past token network mono nonce io later,
      events = past ++ .work token network mono nonce io :: later →
      let before := run (Keeping.step key) start past
      let after := before.step key (.work token network mono nonce io)
      let outcome := before.store.keepWork key token network mono nonce io
      outcome.1 ≠ .panicked ∧
        ∀ granted active index, outcome.1 = .returned granted →
          before.store.active = some active → active.transfer = some index →
          ∃ transfer, after.store.transfers[index]? = some transfer ∧ transfer.Ready key ∧
            transfer.record.grant = granted.grant ∧ ∀ resource,
              after.covered index granted.grant resource +
                transfer.record.remaining.amount resource ≤
                (start.ceiling index).amount resource) ∧
    ∀ past between later (index : Nat) (old new : Transfer), events = past ++ between ++ later →
      (run (Keeping.step key) start past).store.transfers[index]? = some old →
      (run (Keeping.step key) start (past ++ between)).store.transfers[index]? = some new →
      old.poisoned = false → new.poisoned = false → new.record.grant = old.record.grant →
      new.record.remaining.atMost old.record.remaining = true := by
  refine ⟨?_, ?_, ?_⟩
  · have hlength : ∀ index < start.store.transfers.length,
        index < (run (Keeping.step key) start events).store.transfers.length := by
      intro index hlt
      have hget := List.getElem?_eq_getElem hlt
      have hready := hstart.ready _ (List.mem_of_getElem? hget)
      have hany : Transfer.Holds key (fun _ => True) _ := hready.holds trivial
      obtain ⟨after, hafter, -⟩ := run_holds hseal (fun _ _ _ _ => trivial) hstart.prepaid hget
        hany hobeys
      exact (List.getElem?_eq_some_iff.mp hafter).1
    intro index hlt
    exact (run_prepaid hseal hstart hobeys).bound index (hlength index hlt)
  · rintro past token network mono nonce io later rfl before after outcome
    obtain ⟨hpast, -⟩ := (obeys_append past _).mp hobeys
    have hprepaid := run_prepaid hseal hstart hpast
    obtain ⟨hpanic, hafter, hgranted⟩ := hprepaid.work hseal token network mono nonce io
    refine ⟨hpanic, fun granted active index hreturned hactive hplace => ?_⟩
    obtain ⟨transfer, htransfer, hready, hgrant⟩ :=
      hgranted granted active index hreturned hactive hplace
    refine ⟨transfer, htransfer, hready, hgrant, fun resource => ?_⟩
    have haccount := (hafter.transfers index transfer htransfer).record hready.poisoned
    have hbalance : after.covered index transfer.record.grant resource +
        (after.store.held index).amount resource + transfer.record.remaining.amount resource ≤
        (start.ceiling index).amount resource := haccount.balance resource
    rw [← hgrant]
    omega
  · rintro past between later index old new rfl hold hnew hclean hdone hgrant
    obtain ⟨hboth, -⟩ := (obeys_append (past ++ between) later).mp hobeys
    obtain ⟨hpast, hbetween⟩ := (obeys_append past between).mp hboth
    have hprepaid := run_prepaid hseal hstart hpast
    have hready := (hprepaid.transfers index old hold).ready hclean
    have hself : NotAbove old.record old.record :=
      .inr ⟨rfl, KeepAllowance.atMost_iff.mpr fun _ => Nat.le_refl _⟩
    obtain ⟨found, hfound, hholds⟩ := run_holds hseal (notAbove_inherited old.record) hprepaid hold
      (hready.holds hself) hbetween
    rw [run_append] at hnew
    rw [hfound] at hnew
    cases hnew
    rcases hholds.record hdone with hlater | ⟨-, hless⟩
    · rw [hgrant] at hlater
      exact absurd hlater (UInt64.lt_irrefl _)
    · exact hless

end Runs

/-- One run with one request of five bytes. -/
theorem keepWork_prepaid_one_request :
    letI : Blake3 := ⟨fun _ => 0⟩
    letI : Sealing := Transfer.tagSealing
    let first := Record.sample
    let transfer : Transfer :=
      ⟨first, false, ⟨fun _ => ⟨diskBytes 0 0 first, true⟩, 1, ⟨some 0, none⟩, []⟩⟩
    let state : Keeping := ⟨⟨none, [transfer], none⟩, fun _ _ _ => 0⟩
    let events : List KeepEvent :=
      [.start 8 (some 0), .work 8 (some ⟨5, false⟩) 0 0 fun _ => .done]
    Started 0 state ∧ Obeys (Keeping.step 0) (Keeping.Allowed 0) state events ∧
      (run (Keeping.step 0) state events).covered 0 1 .bytes = 5 ∧
      (run (Keeping.step 0) state events).covered 0 1 .bytes ≤ (state.ceiling 0).amount .bytes := by
  let : Blake3 := ⟨fun _ => 0⟩
  let : Sealing := Transfer.tagSealing
  intro first transfer state events
  have hseal : Sealing.Lawful := Transfer.tagSealing_lawful
  have hvalid : first.validate = .ok () := by decide +kernel
  have hready : transfer.Ready 0 := Transfer.ready_of_stored hseal hvalid 0
  have hstart : Started 0 state := by
    refine ⟨rfl, fun found hfound => ?_, fun _ _ _ => rfl⟩
    rw [List.mem_singleton.mp hfound]
    exact hready
  have hobeys : Obeys (Keeping.step 0) (Keeping.Allowed 0) state events := by
    refine ⟨⟨rfl, fun index hindex => ?_⟩, trivial, trivial⟩
    cases hindex
    exact Nat.one_pos
  obtain ⟨hbound, -⟩ := keepWork_prepaid hseal state hstart events hobeys
  refine ⟨hstart, hobeys, by decide +kernel, ?_⟩
  -- The run is not to be evaluated here.
  generalize run (Keeping.step 0) state events = final at hbound ⊢
  exact hbound 0 Nat.one_pos 1 .bytes

end Kept
end Mewtual
