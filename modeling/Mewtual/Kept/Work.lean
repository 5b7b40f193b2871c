import Mewtual.Kept.Durability
import Mewtual.Lib.Machine

/-!
# Prepaid work

A run of a transfer asks for permission before each piece of work. Permission comes out of a window
in memory: a deadline and an allowance that was debited from the durable record before. When the
window has expired, or holds too little, a batch is debited and published first; the unused rest of
an expired window is lost.

The window counts in machine integers. An addition or subtraction that left its type would stop the
program, and so would a missing window; {lit}`CallEnd.panicked` stands for both.

Main results:

- Theorem {lit}`prepay_fits`: what is debited and what the window then holds.
- Theorem {lit}`Store.workOn_fits`: everything one request can do.
-/

namespace Mewtual
namespace Kept

/-! ## Arithmetic of allowances -/

namespace KeepAllowance

/-- The sum, if every component fits. -/
def plus (left right : KeepAllowance) : Option KeepAllowance :=
  if left.requests.toNat + right.requests.toNat < 2 ^ 32 ∧
      left.pages.toNat + right.pages.toNat < 2 ^ 32 ∧
      left.bytes.toNat + right.bytes.toNat < 2 ^ 64 ∧
      left.slices.toNat + right.slices.toNat < 2 ^ 16 then
    some ⟨left.requests + right.requests, left.pages + right.pages, left.bytes + right.bytes,
      left.slices + right.slices⟩
  else none

def zero : KeepAllowance := ⟨0, 0, 0, 0⟩

/-- The part of an allowance that a window holds. -/
def withoutSlices (allowance : KeepAllowance) : KeepAllowance := { allowance with slices := 0 }

@[simp] theorem amount_zero (resource : Resource) : zero.amount resource = 0 := by
  cases resource <;> rfl

theorem amount_of_plus {left right sum : KeepAllowance} (h : left.plus right = some sum)
    (resource : Resource) : sum.amount resource = left.amount resource + right.amount resource := by
  unfold plus at h
  split at h
  · rename_i hfits
    obtain ⟨hrequests, hpages, hbytes, hslices⟩ := hfits
    cases h
    cases resource with
    | requests => simpa [amount] using Nat.mod_eq_of_lt hrequests
    | pages => simpa [amount] using Nat.mod_eq_of_lt hpages
    | bytes => simpa [amount] using Nat.mod_eq_of_lt hbytes
    | slices => simpa [amount] using Nat.mod_eq_of_lt hslices
  · cases h

/-- A sum within an allowance fits. -/
theorem exists_plus {left right bound : KeepAllowance}
    (h : ∀ resource, left.amount resource + right.amount resource ≤ bound.amount resource) :
    ∃ sum, left.plus right = some sum := by
  have hrequests := Nat.lt_of_le_of_lt (h .requests) bound.requests.toNat_lt
  have hpages := Nat.lt_of_le_of_lt (h .pages) bound.pages.toNat_lt
  have hbytes := Nat.lt_of_le_of_lt (h .bytes) bound.bytes.toNat_lt
  have hslices := Nat.lt_of_le_of_lt (h .slices) bound.slices.toNat_lt
  unfold plus
  rw [if_pos ⟨hrequests, hpages, hbytes, hslices⟩]
  exact ⟨_, rfl⟩

/-- A debit within the allowance is made. -/
theorem exists_subtract {allowance grant : KeepAllowance}
    (h : ∀ resource, grant.amount resource ≤ allowance.amount resource) :
    ∃ left, allowance.subtract grant = .ok left := by
  unfold subtract
  rw [if_pos]
  · exact ⟨_, rfl⟩
  · exact ⟨UInt32.le_iff_toNat_le.mpr (h .requests), UInt32.le_iff_toNat_le.mpr (h .pages),
      UInt64.le_iff_toNat_le.mpr (h .bytes), UInt16.le_iff_toNat_le.mpr (h .slices)⟩

end KeepAllowance

/-! ## Windows -/

/-- A request that is to be paid for. -/
structure KeepNetworkWork where
  bytes : UInt64
  paged : Bool
deriving DecidableEq

/-- A slice of work that was paid for. -/
structure WorkWindow where
  deadline : UInt64
  remaining : KeepAllowance
deriving DecidableEq

def maxRequestResponseFrameBytes : UInt64 := 16 * 1024 * 1024

def requestTimeoutMs : Nat := 10000

def keepExecutionSliceMs : UInt64 := 15000

/-- An allowance is too small for a request. -/
def KeepAllowance.lacks (allowance : KeepAllowance) (work : KeepNetworkWork) : Bool :=
  allowance.requests = 0 || (work.paged && allowance.pages = 0) || allowance.bytes < work.bytes

/-- What one piece of work takes out of its window. -/
def networkCost : Option KeepNetworkWork → KeepAllowance
  | none => .zero
  | some work => ⟨1, if work.paged then 1 else 0, work.bytes, 0⟩

/-- A request needs its whole timeout before the deadline. -/
def requiredMs (network : Option KeepNetworkWork) : Nat :=
  if network.isSome then requestTimeoutMs + 2000 else 0

/-- The work could outlast the window. -/
def WorkWindow.expired (window : WorkWindow) (network : Option KeepNetworkWork) (mono : UInt64) :
    Bool :=
  saturatingAdd mono.toNat (requiredMs network) ≥ window.deadline.toNat

/-- The window if it has not expired. The tail of a slice that is too short for a request is
burned. -/
def usable (window : Option WorkWindow) (network : Option KeepNetworkWork) (mono : UInt64) :
    Option WorkWindow :=
  window.filter fun window => !(window.expired network mono)

/-- The batch of bytes for a request. -/
def batchBytes (work : KeepNetworkWork) : UInt64 :=
  UInt64.ofNat (min (max (work.bytes.toNat * 16) (256 * 1024)) (16 * 1024 * 1024))

/-- What is debited for a window without the time or the allowance for a request. -/
def reserveFor (remaining : KeepAllowance) (network : Option KeepNetworkWork)
    (expired missing : Bool) : KeepAllowance :=
  let slices : UInt16 := if expired then 1 else 0
  match network.filter fun _ => missing with
  | none => { KeepAllowance.zero with slices := slices }
  | some work =>
    { requests := min remaining.requests 16
      pages := if work.paged then min remaining.pages 16 else 0
      bytes := min remaining.bytes (batchBytes work)
      slices := slices }

/-- What a request does to the journal before it is granted. -/
inductive Prepay where
  | paid (window : WorkWindow)
  | debit (next : Record) (window : WorkWindow)
  | exhaust (next : Record)
  | failed (error : StorageError)
  | panicked

/-- The allowance of a window that may be missing. -/
def heldBy (window : Option WorkWindow) : KeepAllowance := window.elim .zero WorkWindow.remaining

/-- The window is given without its expired part. -/
def prepay [Blake3] (record : Record) (window : Option WorkWindow)
    (network : Option KeepNetworkWork) (mono : UInt64) : Prepay :=
  let expired := window.isNone
  let missing := network.any fun work => window.all fun window => window.remaining.lacks work
  if expired || missing then
    let reserve := reserveFor record.remaining network expired missing
    match (heldBy window).plus reserve.withoutSlices with
    | none => .panicked
    | some filled =>
      match window.elim (checkedAdd mono keepExecutionSliceMs) fun window => window.deadline with
      | none => .failed .malformed
      | some deadline =>
        match record.successor with
        | .error error => .failed error
        | .ok next =>
          let insufficient := network.any fun work => missing && filled.lacks work
          match next.remaining.subtract reserve with
          | .error _ => .exhaust { next with exhausted := true }
          | .ok left =>
            if insufficient then .exhaust { next with exhausted := true }
            else .debit { next with remaining := left } ⟨deadline, filled⟩
  else
    match window with
    | none => .panicked
    | some window => .paid window

/-! ## Requests -/

/-- The run that holds the store. Its {lit}`live` flag is what its permissions watch. -/
structure Active where
  token : Nat
  transfer : Option Nat
  window : Option WorkWindow
  live : Bool

/-- A permission. -/
structure KeepWork where
  run : Nat
  grant : UInt64
  deadline : UInt64
deriving DecidableEq

/-- How a call ends. -/
inductive CallEnd (α : Type) where
  | returned (value : α)
  | failed (error : StorageError)
  | panicked
  | crashed
deriving DecidableEq

/-- The open transfers, the active one, and a fault that closes the store. -/
structure Store where
  fault : Option String
  transfers : List Transfer
  active : Option Active

namespace Store

def ready (store : Store) : Except StorageError Unit :=
  match store.fault with
  | some error => .error (.io error)
  | none =>
    if store.transfers.any Transfer.poisoned then .error needsStorageCheck else .ok ()

/-- The store with another transfer at one place. -/
def put (store : Store) (index : Nat) (transfer : Transfer) (active : Active) : Store :=
  { store with transfers := store.transfers.set index transfer, active := some active }

/-- Take the work out of its window. -/
def dispatch (store : Store) (active : Active) (index : Nat) (transfer : Transfer)
    (window : WorkWindow) (network : Option KeepNetworkWork) : CallEnd KeepWork × Store :=
  match window.remaining.subtract (networkCost network) with
  | .error _ => (.panicked, store.put index transfer { active with window := some window })
  | .ok left =>
    (.returned ⟨active.token, transfer.record.grant, window.deadline⟩,
      store.put index transfer { active with window := some { window with remaining := left } })

/-- Publish what the request needs, then grant it. -/
def settle [Blake3] [Sealing] (key : Hash32) (network : Option KeepNetworkWork) (nonce : Fixed 24)
    (io : ReplaceStep → Effect) (active : Active) (index : Nat) (transfer : Transfer)
    (store : Store) : Prepay → CallEnd KeepWork × Store
  | .failed error => (.failed error, store.put index transfer active)
  | .panicked => (.panicked, store.put index transfer active)
  | .paid window => store.dispatch active index transfer window network
  | .exhaust next =>
    let active := { active with live := false }
    match transfer.publish key nonce io next with
    | (.published, after) => (.failed .keepExhausted, store.put index after active)
    | (.failed error, after) => (.failed error, store.put index after active)
    | (.crashed, after) => (.crashed, store.put index after active)
  | .debit next window =>
    match transfer.publish key nonce io next with
    | (.published, after) => store.dispatch active index after window network
    | (.failed error, after) => (.failed error, store.put index after active)
    | (.crashed, after) => (.crashed, store.put index after active)

/-- A request of the active run on its transfer. -/
def workOn [Blake3] [Sealing] (key : Hash32) (network : Option KeepNetworkWork) (mono : UInt64)
    (nonce : Fixed 24) (io : ReplaceStep → Effect) (active : Active) (index : Nat)
    (transfer : Transfer) (store : Store) : CallEnd KeepWork × Store :=
  if transfer.poisoned ∨ transfer.record.phase = .deleting then (.failed .malformed, store)
  else if transfer.record.exhausted then (.failed .keepExhausted, store)
  else if network.any fun work => work.bytes = 0 || work.bytes > maxRequestResponseFrameBytes then
    (.failed .blobSizeLimit, store)
  else
    let window := usable active.window network mono
    store.settle key network nonce io { active with window := window } index transfer
      (prepay transfer.record window network mono)

/-- Pay for work on a transfer before it is done. -/
def keepWork [Blake3] [Sealing] (key : Hash32) (token : Nat) (network : Option KeepNetworkWork)
    (mono : UInt64) (nonce : Fixed 24) (io : ReplaceStep → Effect) (store : Store) :
    CallEnd KeepWork × Store :=
  match store.ready with
  | .error error => (.failed error, store)
  | .ok () =>
    match store.active.filter fun active => active.token = token with
    | none => (.failed .malformed, store)
    | some active =>
      match active.transfer with
      | none =>
        -- A completed copy of the old format has no journal.
        match checkedAdd mono keepExecutionSliceMs with
        | none => (.failed .malformed, store)
        | some deadline => (.returned ⟨token, 0, deadline⟩, store)
      | some index =>
        match store.transfers[index]? with
        | none => (.panicked, store)
        | some transfer => store.workOn key network mono nonce io active index transfer

end Store

/-! ## What is debited -/

/-- One slice for a window that begins. -/
def freshSlice (window : Option WorkWindow) (resource : Resource) : Nat :=
  if window.isNone ∧ resource = .slices then 1 else 0

/-- A window holds the cost of a piece of work. -/
def WorkWindow.Pays (window : WorkWindow) (network : Option KeepNetworkWork) : Prop :=
  ∀ resource, (networkCost network).amount resource ≤ window.remaining.amount resource

/-- What a request does to the journal: it grants out of the window, it moves a batch from the
record to the window, or it marks the record exhausted. -/
inductive Prepay.Fits (record : Record) (held : Option WorkWindow)
    (network : Option KeepNetworkWork) : Prepay → Prop
  | paid (window : WorkWindow) (hheld : held = some window) (hpays : window.Pays network) :
    Fits record held network (.paid window)
  | debit (next : Record) (window : WorkWindow) (hgrant : next.grant = record.grant)
    (hmoved : ∀ resource, window.remaining.amount resource + next.remaining.amount resource +
      freshSlice held resource = (heldBy held).amount resource + record.remaining.amount resource)
    (hpays : window.Pays network) : Fits record held network (.debit next window)
  | exhaust (next : Record) (hgrant : next.grant = record.grant)
    (hremaining : next.remaining = record.remaining) : Fits record held network (.exhaust next)
  | failed (error : StorageError) : Fits record held network (.failed error)

theorem cost_le_of_lacks_eq_false {allowance : KeepAllowance} {work : KeepNetworkWork}
    (h : allowance.lacks work = false) (resource : Resource) :
    (networkCost (some work)).amount resource ≤ allowance.amount resource := by
  simp only [KeepAllowance.lacks, Bool.or_eq_false_iff, Bool.and_eq_false_iff,
    decide_eq_false_iff_not, UInt64.not_lt] at h
  obtain ⟨⟨hrequests, hpages⟩, hbytes⟩ := h
  cases resource with
  | requests =>
    have hpos : allowance.requests.toNat ≠ 0 := fun hzero => hrequests (UInt32.toNat_inj.mp hzero)
    exact Nat.one_le_iff_ne_zero.mpr hpos
  | pages =>
    unfold networkCost KeepAllowance.amount
    dsimp only
    cases hpaged : work.paged with
    | false => exact Nat.zero_le _
    | true =>
      have hnonzero := hpages.resolve_left (by rw [hpaged]; simp)
      have hpos : allowance.pages.toNat ≠ 0 := fun hzero =>
        hnonzero (UInt32.toNat_inj.mp hzero)
      exact Nat.one_le_iff_ne_zero.mpr hpos
  | bytes => exact UInt64.le_iff_toNat_le.mp hbytes
  | slices => exact Nat.zero_le _

theorem pays_of_lacks {window : WorkWindow} {network : Option KeepNetworkWork}
    (h : (network.any fun work => window.remaining.lacks work) = false) : window.Pays network := by
  intro resource
  cases network with
  | none =>
    rw [networkCost, KeepAllowance.amount_zero]
    exact Nat.zero_le _
  | some work => exact cost_le_of_lacks_eq_false h resource

/-- A batch is within the record, its slice apart. -/
theorem reserveFor_le (remaining : KeepAllowance) (network : Option KeepNetworkWork)
    (expired missing : Bool) (resource : Resource) :
    (reserveFor remaining network expired missing).withoutSlices.amount resource ≤
      remaining.amount resource := by
  unfold reserveFor
  cases network.filter fun _ => missing with
  | none => cases resource <;> exact Nat.zero_le _
  | some work =>
    cases resource with
    | requests => exact UInt32.le_iff_toNat_le.mp (Std.min_le_left)
    | pages =>
      dsimp only [KeepAllowance.amount]
      split
      · exact UInt32.le_iff_toNat_le.mp Std.min_le_left
      · exact Nat.zero_le _
    | bytes => exact UInt64.le_iff_toNat_le.mp Std.min_le_left
    | slices => exact Nat.zero_le _

theorem reserveFor_slices (remaining : KeepAllowance) (network : Option KeepNetworkWork)
    (expired missing : Bool) :
    (reserveFor remaining network expired missing).slices = if expired then 1 else 0 := by
  unfold reserveFor
  cases network.filter fun _ => missing <;> rfl

/-- A batch and its slice. -/
theorem amount_reserveFor (remaining : KeepAllowance) (network : Option KeepNetworkWork)
    (window : Option WorkWindow) (missing : Bool) (resource : Resource) :
    (reserveFor remaining network window.isNone missing).amount resource =
      (reserveFor remaining network window.isNone missing).withoutSlices.amount resource +
        freshSlice window resource := by
  unfold freshSlice KeepAllowance.withoutSlices
  cases resource with
  | requests | pages | bytes => simp [KeepAllowance.amount]
  | slices =>
    simp only [KeepAllowance.amount, reserveFor_slices]
    cases window <;> rfl

theorem Record.successor_grant [Blake3] {record next : Record} (h : record.successor = .ok next) :
    next.grant = record.grant ∧ next.remaining = record.remaining := by
  unfold Record.successor at h
  split at h
  · cases h
  · cases h
    exact ⟨rfl, rfl⟩

/-- What is debited and what the window then holds. With the window and the record inside some
allowance no sum overflows. -/
theorem prepay_fits [Blake3] {record : Record} {window : Option WorkWindow} {bound : KeepAllowance}
    (hbound : ∀ resource, (heldBy window).amount resource + record.remaining.amount resource ≤
      bound.amount resource)
    (network : Option KeepNetworkWork) (mono : UInt64) :
    (prepay record window network mono).Fits record window network := by
  unfold prepay
  dsimp only
  generalize hmissing :
    (network.any fun work => window.all fun window => window.remaining.lacks work) = missing
  generalize hreserve : reserveFor record.remaining network window.isNone missing = reserve
  split
  · rename_i hneeded
    have hfits : ∀ resource, (heldBy window).amount resource +
        reserve.withoutSlices.amount resource ≤ bound.amount resource := by
      intro resource
      have hle := reserveFor_le record.remaining network window.isNone missing resource
      rw [hreserve] at hle
      exact Nat.le_trans (Nat.add_le_add_left hle _) (hbound resource)
    obtain ⟨filled, hfilled⟩ := KeepAllowance.exists_plus hfits
    rw [hfilled]
    dsimp only
    cases window.elim (checkedAdd mono keepExecutionSliceMs) fun window => some window.deadline with
    | none => exact .failed _
    | some deadline =>
      dsimp only
      cases hsuccessor : record.successor with
      | error error => exact .failed error
      | ok next =>
        obtain ⟨hgrant, hremaining⟩ := Record.successor_grant hsuccessor
        dsimp only
        cases hleft : next.remaining.subtract reserve with
        | error => exact .exhaust _ hgrant hremaining
        | ok left =>
          dsimp only
          split
          · exact .exhaust _ hgrant hremaining
          · rename_i hsufficient
            refine .debit _ _ hgrant (fun resource => ?_) ?_
            · have hsum := KeepAllowance.amount_of_plus hfilled resource
              have hdebit := KeepAllowance.amount_of_subtract hleft resource
              have hslice := amount_reserveFor record.remaining network window missing
                resource
              rw [hreserve] at hslice
              rw [hremaining] at hdebit
              dsimp only
              omega
            · refine pays_of_lacks ?_
              -- Without a request nothing is needed; with one, the batch was for it.
              cases network with
              | none => rfl
              | some work =>
                cases missing with
                | true => simpa using hsufficient
                | false =>
                  cases window with
                  | none => simp at hmissing
                  | some window => simp at hneeded
  · rename_i hcovered
    rw [Bool.or_eq_true, not_or, Bool.not_eq_true, Bool.not_eq_true] at hcovered
    obtain ⟨hsome, hpresent⟩ := hcovered
    cases window with
    | none => cases hsome
    | some window =>
      refine .paid window rfl (pays_of_lacks ?_)
      rw [← hpresent, ← hmissing]
      rfl

/-! ## What a request can do -/

/-- A request that ended without a permission and without stopping the program. -/
def CallEnd.Denied {α : Type} : CallEnd α → Prop
  | .returned _ => False
  | .panicked => False
  | .failed _ => True
  | .crashed => True

theorem CallEnd.Denied.ne_panicked {α : Type} {result : CallEnd α} (h : result.Denied) :
    result ≠ .panicked := by
  rintro rfl
  exact h

theorem CallEnd.Denied.ne_returned {α : Type} {result : CallEnd α} (h : result.Denied)
    (value : α) : result ≠ .returned value := by
  rintro rfl
  exact h

section Requests

variable [Blake3] [Sealing]

/-- Everything a request can do to its transfer and to the window of its run. -/
inductive WorkStep (key : Hash32) (nonce : Fixed 24) (io : ReplaceStep → Effect)
    (transfer : Transfer) (token : Nat) (held usable : Option WorkWindow)
    (network : Option KeepNetworkWork) : CallEnd KeepWork → Transfer → Option WorkWindow → Prop
  | untouched (result : CallEnd KeepWork) (hresult : result.Denied) (window : Option WorkWindow)
    (hwindow : window = held ∨ window = usable) :
    WorkStep key nonce io transfer token held usable network result transfer window
  | published (result : CallEnd KeepWork) (hresult : result.Denied) (next : Record)
    (hgrant : next.grant = transfer.record.grant) :
    WorkStep key nonce io transfer token held usable network result
      (transfer.publish key nonce io next).2 usable
  | granted (after : Transfer) (window : WorkWindow)
    (hafter : after = transfer ∨
      ∃ next, transfer.publish key nonce io next = (.published, after))
    (hgrant : after.record.grant = transfer.record.grant)
    (hmoved : ∀ resource, window.remaining.amount resource +
      (networkCost network).amount resource + freshSlice usable resource +
      after.record.remaining.amount resource =
        (heldBy usable).amount resource + transfer.record.remaining.amount resource) :
    WorkStep key nonce io transfer token held usable network
      (.returned ⟨token, after.record.grant, window.deadline⟩) after (some window)

omit [Blake3] [Sealing] in
theorem heldBy_usable_le (window : Option WorkWindow) (network : Option KeepNetworkWork)
    (mono : UInt64) (resource : Resource) :
    (heldBy (usable window network mono)).amount resource ≤ (heldBy window).amount resource := by
  unfold usable
  cases window with
  | none => exact Nat.le_refl _
  | some window =>
    rw [Option.filter_some]
    split
    · exact Nat.le_refl _
    · rw [show heldBy none = KeepAllowance.zero from rfl, KeepAllowance.amount_zero]
      exact Nat.zero_le _

/-- A publication that is reported published a successor. -/
theorem Transfer.publish_published {key : Hash32} {nonce : Fixed 24} {io : ReplaceStep → Effect}
    {transfer after : Transfer} {next : Record}
    (h : transfer.publish key nonce io next = (.published, after)) :
    transfer.poisoned = false ∧ transfer.record.validateSuccessor next = .ok () ∧
      after.record = next ∧ after.poisoned = false := by
  have hpublish := h
  unfold Transfer.publish at hpublish
  cases hpoisoned : transfer.poisoned with
  | true =>
    rw [hpoisoned] at hpublish
    cases hpublish
  | false =>
    rw [hpoisoned] at hpublish
    cases hsuccessor : transfer.record.validateSuccessor next with
    | error error =>
      rw [hsuccessor] at hpublish
      cases hpublish
    | ok =>
      refine ⟨rfl, rfl, ?_⟩
      rw [Transfer.publish_eq hpoisoned hsuccessor] at h
      generalize transfer.volume.replace io [] (diskBytes key nonce next) = outcome at h
      obtain ⟨result, volume⟩ := outcome
      cases result with
      | replaced =>
        cases h
        exact ⟨rfl, rfl⟩
      | refused | broken | crashed => cases h

namespace Store

variable {key : Hash32} {nonce : Fixed 24} {io : ReplaceStep → Effect} {store : Store}
  {active : Active} {index : Nat} {transfer : Transfer}

omit [Blake3] [Sealing] in
/-- Putting back what is there changes nothing. -/
theorem put_self (htransfer : store.transfers[index]? = some transfer)
    (hactive : store.active = some active) : store.put index transfer active = store := by
  obtain ⟨hlt, hget⟩ := List.getElem?_eq_some_iff.mp htransfer
  obtain ⟨fault, transfers, running⟩ := store
  cases hactive
  unfold put
  rw [← hget, List.set_getElem_self]

omit [Blake3] [Sealing] in
theorem dispatch_of_pays {window : WorkWindow} {network : Option KeepNetworkWork}
    (h : window.Pays network) (store : Store) (active : Active) (index : Nat)
    (transfer : Transfer) :
    ∃ left, window.remaining.subtract (networkCost network) = .ok left ∧
      store.dispatch active index transfer window network =
        (.returned ⟨active.token, transfer.record.grant, window.deadline⟩,
          store.put index transfer
            { active with window := some { window with remaining := left } }) := by
  obtain ⟨left, hleft⟩ := KeepAllowance.exists_subtract h
  refine ⟨left, hleft, ?_⟩
  unfold dispatch
  rw [hleft]

/-- What follows from what is debited. -/
theorem settle_fits (active : Active) {network : Option KeepNetworkWork} {held : Option WorkWindow}
    {plan : Prepay}
    (h : plan.Fits transfer.record active.window network) :
    ∃ result after window live,
      store.settle key network nonce io active index transfer plan =
        (result, store.put index after { active with window := window, live := live }) ∧
      WorkStep key nonce io transfer active.token held active.window network result after
        window := by
  have hdenied :
      ∀ next : Record, next.grant = transfer.record.grant → ∀ result, CallEnd.Denied result →
      WorkStep key nonce io transfer active.token held active.window network result
        (transfer.publish key nonce io next).2 active.window :=
    fun next hgrant result hresult => .published result hresult next hgrant
  cases h with
  | failed error => exact ⟨_, _, _, _, rfl, .untouched (.failed error) trivial _ (.inr rfl)⟩
  | paid window hheld hpays =>
    obtain ⟨left, hleft, hdispatch⟩ := dispatch_of_pays hpays store active index transfer
    refine ⟨_, _, _, _, hdispatch, ?_⟩
    refine .granted transfer ⟨window.deadline, left⟩ (.inl rfl) rfl fun resource => ?_
    have hspent := KeepAllowance.amount_of_subtract hleft resource
    simp only [hheld, heldBy, freshSlice, Option.elim_some, Option.isNone_some,
      Bool.false_eq_true, false_and, if_false]
    omega
  | exhaust next hgrant hremaining =>
    have hpublished := hdenied next hgrant
    unfold settle
    dsimp only
    generalize transfer.publish key nonce io next = outcome at hpublished
    obtain ⟨result, after⟩ := outcome
    cases result with
    | published | failed | crashed => exact ⟨_, _, _, _, rfl, hpublished _ trivial⟩
  | debit next window hgrant hmoved hpays =>
    have hpublished := hdenied next hgrant
    unfold settle
    dsimp only
    cases hpublish : transfer.publish key nonce io next with
    | mk result after =>
      rw [hpublish] at hpublished
      cases result with
      | failed | crashed => exact ⟨_, _, _, _, rfl, hpublished _ trivial⟩
      | published =>
        obtain ⟨-, -, hrecord, -⟩ := Transfer.publish_published hpublish
        obtain ⟨left, hleft, hdispatch⟩ := dispatch_of_pays hpays store active index after
        refine ⟨_, _, _, _, hdispatch, ?_⟩
        refine .granted after ⟨window.deadline, left⟩ (.inr ⟨next, hpublish⟩)
          (by rw [hrecord, hgrant]) fun resource => ?_
        have hspent := KeepAllowance.amount_of_subtract hleft resource
        have hbatch := hmoved resource
        rw [hrecord]
        dsimp only
        omega

/-- Everything one request can do. -/
theorem workOn_fits {bound : KeepAllowance}
    (hbound : ∀ resource, (heldBy active.window).amount resource +
      transfer.record.remaining.amount resource ≤ bound.amount resource)
    (htransfer : store.transfers[index]? = some transfer) (hactive : store.active = some active)
    (network : Option KeepNetworkWork) (mono : UInt64) :
    ∃ result after window live,
      store.workOn key network mono nonce io active index transfer =
        (result, store.put index after { active with window := window, live := live }) ∧
      WorkStep key nonce io transfer active.token active.window
        (usable active.window network mono) network result after window := by
  have hself : store = store.put index transfer
      { active with window := active.window, live := active.live } :=
    (put_self htransfer hactive).symm
  have hdenied : ∀ error, WorkStep key nonce io transfer active.token active.window
      (usable active.window network mono) network (.failed error) transfer active.window :=
    fun error => .untouched (.failed error) trivial _ (.inl rfl)
  unfold workOn
  split
  · exact ⟨_, _, _, _, congrArg _ hself, hdenied _⟩
  split
  · exact ⟨_, _, _, _, congrArg _ hself, hdenied _⟩
  split
  · exact ⟨_, _, _, _, congrArg _ hself, hdenied _⟩
  have hheld : ∀ resource, (heldBy (usable active.window network mono)).amount resource +
      transfer.record.remaining.amount resource ≤ bound.amount resource := fun resource =>
    Nat.le_trans (Nat.add_le_add_right (heldBy_usable_le _ _ _ _) _) (hbound resource)
  exact settle_fits { active with window := usable active.window network mono }
    (prepay_fits hheld network mono)

omit [Blake3] [Sealing] in
theorem poisoned_of_ready (h : store.ready = .ok ())
    (htransfer : store.transfers[index]? = some transfer) : transfer.poisoned = false := by
  unfold ready at h
  split at h
  · cases h
  · obtain ⟨hany, -⟩ := guard_eq_ok.mp h
    rw [Bool.not_eq_true, List.any_eq_false] at hany
    have hpoisoned := hany transfer (List.mem_of_getElem? htransfer)
    rwa [Bool.not_eq_true] at hpoisoned

/-- A call by its run: it is denied as it stands, it is granted without a journal, or it is a
request on the transfer of the run. -/
theorem keepWork_fits (key : Hash32) (nonce : Fixed 24) (io : ReplaceStep → Effect)
    {bound : Nat → KeepAllowance}
    (hbound : ∀ active index transfer, store.active = some active →
      active.transfer = some index → store.transfers[index]? = some transfer →
      transfer.poisoned = false → ∀ resource, (heldBy active.window).amount resource +
        transfer.record.remaining.amount resource ≤ (bound index).amount resource)
    (hindex : ∀ active index, store.active = some active → active.transfer = some index →
      index < store.transfers.length)
    (token : Nat) (network : Option KeepNetworkWork) (mono : UInt64) :
    (∃ result, store.keepWork key token network mono nonce io = (result, store) ∧
      (result.Denied ∨ ∃ active deadline, store.active = some active ∧ active.transfer = none ∧
        result = .returned ⟨token, 0, deadline⟩)) ∨
    ∃ active index transfer result after window live,
      store.active = some active ∧ active.token = token ∧ active.transfer = some index ∧
      store.transfers[index]? = some transfer ∧ transfer.poisoned = false ∧
      store.keepWork key token network mono nonce io =
        (result, store.put index after { active with window := window, live := live }) ∧
      WorkStep key nonce io transfer token active.window (usable active.window network mono) network
        result after window := by
  unfold keepWork
  cases hready : store.ready with
  | error error => exact .inl ⟨_, rfl, .inl trivial⟩
  | ok =>
    dsimp only
    cases hactive : store.active.filter fun active => active.token = token with
    | none => exact .inl ⟨_, rfl, .inl trivial⟩
    | some active =>
      obtain ⟨hrunning, htoken⟩ := Option.filter_eq_some_iff.mp hactive
      rw [decide_eq_true_eq] at htoken
      dsimp only
      cases hplace : active.transfer with
      | none =>
        dsimp only
        cases checkedAdd mono keepExecutionSliceMs with
        | none => exact .inl ⟨_, rfl, .inl trivial⟩
        | some deadline => exact .inl ⟨_, rfl, .inr ⟨active, deadline, hrunning, hplace, rfl⟩⟩
      | some index =>
        have hlt := hindex active index hrunning hplace
        have htransfer := List.getElem?_eq_getElem hlt
        have hpoisoned := poisoned_of_ready hready htransfer
        dsimp only
        rw [htransfer]
        dsimp only
        obtain ⟨result, after, window, live, hresult, hstep⟩ := workOn_fits
          (hbound active index _ hrunning hplace htransfer hpoisoned) htransfer hrunning
          network mono
        rw [htoken] at hstep
        exact .inr ⟨active, index, _, result, after, window, live, hrunning, htoken, hplace,
          htransfer, hpoisoned, hresult, hstep⟩

end Store

end Requests

end Kept
end Mewtual
