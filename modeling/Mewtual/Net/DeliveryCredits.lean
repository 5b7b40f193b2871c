import Mewtual.Net.ConnectionAdmission

/-!
# Delivery credits

What the networking actors hold for the application is charged twice: to the driver that holds it
and to the pool all drivers of the process share. A credit stands for one charge and returns it
when its last owner is dropped. Both locks are taken for a charge and for a drop, so each is one
step; a run interleaves the steps of any number of drivers. A subtraction that would underflow,
and a peer's row that is gone when it is needed, stop the program.

Main results:

- Theorem {lit}`Delivery.Conserved.charge`, {lit}`Delivery.Conserved.drop`: what one step keeps.
- Theorem {lit}`Delivery.Conserved.charge_none_iff`: what a charge is refused for.
- Theorem {lit}`Delivery.credits_conserved`: every run keeps its counters equal to its live credits.
-/

namespace Mewtual
namespace Net

open Std

/-- The two kinds of request owners a peer has. -/
inductive RequestClass where
  | ordinary
  | maintenance
deriving DecidableEq

namespace RequestClass

/-- The class a request has by its first byte. -/
def forKind (kind : Option UInt8) : RequestClass :=
  if kind = some 2 ∨ kind = some 4 ∨ kind = some 12 ∨ kind = some 26 then maintenance else ordinary

/-- How many requests of the class a peer may have. -/
def limit : RequestClass → Nat
  | ordinary => 2
  | maintenance => 1

end RequestClass

/-- Whom a charge counts as a request of, if it is one. -/
abbrev Requester := Option (NetPeerId × RequestClass)

/-- How many requests of each class a peer has. -/
abbrev PeerRows := ExtTreeMap NetPeerId (RequestClass → Nat)

/-- What a driver and the process both count. -/
inductive Counter where
  | bytes
  | records
  | requests

/-- The counters of a driver. -/
structure Counts where
  amounts : Counter → Nat := 0
  peers : PeerRows := ∅

/-- One charge, by the driver that made it. -/
structure Credit where
  driver : Nat
  bytes : Nat
  peer : Requester

/-- What a credit adds to each counter. -/
def Credit.weight (credit : Credit) : Counter → Nat
  | .bytes => credit.bytes
  | .records => 1
  | .requests => if credit.peer.isSome then 1 else 0

/-- What one driver may hold. -/
def driverCaps : Counter → Nat
  | .bytes => 64 * 1024 * 1024
  | .records => 320
  | .requests => 16

/-- What all drivers of the process may hold together. -/
def processCaps : Counter → Nat
  | .bytes => 128 * 1024 * 1024
  | .records => 1024
  | .requests => 64

/-- What a credit counts beside its payload. -/
def overhead : Nat := 1024

def maxFrame : Nat := 16 * 1024 * 1024

/-! ## Rows of a peer -/

namespace PeerRows

/-- How many requests of the class the rows count. -/
def held (rows : PeerRows) (peer : NetPeerId) (kind : RequestClass) : Nat :=
  (rows[peer]?).getD (fun _ => 0) kind

/-- Count one more request, in a row that is made if it is missing. -/
def add (rows : PeerRows) : Requester → PeerRows
  | none => rows
  | some (peer, kind) =>
    let row := (rows[peer]?).getD fun _ => 0
    rows.insert peer (Function.update row kind (row kind + 1))

/-- A row with nothing left is removed. -/
def sub (rows : PeerRows) : Requester → Option PeerRows
  | none => some rows
  | some (peer, kind) =>
    match rows[peer]? with
    | none => none
    | some row =>
      if row kind = 0 then none
      else
        let left := Function.update row kind (row kind - 1)
        some (if left .ordinary = 0 ∧ left .maintenance = 0 then rows.erase peer
          else rows.insert peer left)

end PeerRows

/-- How many of the credits stand for a request of the peer. -/
def owners (live : List Credit) (peer : NetPeerId) (kind : RequestClass) : Nat :=
  live.countP fun credit => credit.peer = some (peer, kind)

/-- The row a peer has: none when it would count nothing. -/
def shown (row : RequestClass → Nat) : Option (RequestClass → Nat) :=
  if row .ordinary = 0 ∧ row .maintenance = 0 then none else some row

/-- The rows say for each peer what the credits are. -/
def Shows (rows : PeerRows) (live : List Credit) : Prop :=
  ∀ peer : NetPeerId, rows[peer]? = shown (owners live peer)

section Rows

variable {rows : PeerRows} {live : List Credit} {credit : Credit} {peer : NetPeerId}
  {kind : RequestClass}

theorem getD_shown (row : RequestClass → Nat) : (shown row).getD (fun _ => 0) = row := by
  unfold shown
  split
  · rename_i hzero
    funext kind
    cases kind
    · exact hzero.1.symm
    · exact hzero.2.symm
  · rfl

theorem Shows.held (h : Shows rows live) (peer : NetPeerId) (kind : RequestClass) :
    rows.held peer kind = owners live peer kind := by
  rw [PeerRows.held, h peer, getD_shown]

theorem owners_cons_self (h : credit.peer = some (peer, kind)) :
    owners (credit :: live) peer
      = Function.update (owners live peer) kind (owners live peer kind + 1) := by
  funext other
  by_cases hother : other = kind
  · simp [owners, hother, h]
  · simp [owners, hother, h, Ne.symm hother]

theorem owners_cons_other (h : ∀ kind, credit.peer ≠ some (peer, kind)) :
    owners (credit :: live) peer = owners live peer := by
  funext kind
  simp [owners, h kind]

theorem Shows.add (h : Shows rows live) (credit : Credit) :
    Shows (rows.add credit.peer) (credit :: live) := by
  intro other
  rcases hpeer : credit.peer with _ | ⟨peer, kind⟩
  · rw [owners_cons_other (by simp [hpeer])]
    exact h other
  · rw [PeerRows.add, getElem?_insert_self_or]
    by_cases hother : peer = other
    · subst hother
      rw [if_pos rfl, owners_cons_self hpeer, h peer, getD_shown, shown, if_neg]
      cases kind <;> simp
    · rw [if_neg hother, h other, owners_cons_other (by simp [hpeer, hother])]

/-- A live credit can return its request. -/
theorem Shows.sub (h : Shows rows (credit :: live)) :
    ∃ left, rows.sub credit.peer = some left ∧ Shows left live := by
  rcases hpeer : credit.peer with _ | ⟨peer, kind⟩
  · refine ⟨rows, rfl, fun other => ?_⟩
    rw [h other, owners_cons_other (by simp [hpeer])]
  · have hrow : rows[peer]? = some (owners (credit :: live) peer) := by
      rw [h peer, shown, if_neg]
      rw [owners_cons_self hpeer]
      cases kind <;> simp
    have hpos : owners (credit :: live) peer kind = owners live peer kind + 1 := by
      rw [owners_cons_self hpeer, Function.update_self]
    have hleft : Function.update (owners (credit :: live) peer) kind
        (owners (credit :: live) peer kind - 1) = owners live peer := by
      rw [hpos, owners_cons_self hpeer, Function.update_idem]
      exact Function.update_eq_self kind _
    have hne : owners (credit :: live) peer kind ≠ 0 := by omega
    simp only [PeerRows.sub, hrow, hleft, if_neg hne]
    refine ⟨_, rfl, fun other => ?_⟩
    by_cases hother : peer = other
    · subst hother
      unfold shown
      split <;> simp
    · have hrest := h other
      rw [owners_cons_other (by simp [hpeer, hother])] at hrest
      split
      · rw [getElem?_erase_self_or, if_neg hother, hrest]
      · rw [getElem?_insert_self_or, if_neg hother, hrest]

end Rows

/-! ## Counters -/

/-- {lit}`None` where one of the subtractions would underflow. -/
def returned (amounts : Counter → Nat) (credit : Credit) : Option (Counter → Nat) :=
  if credit.weight .bytes ≤ amounts .bytes ∧ credit.weight .records ≤ amounts .records ∧
      credit.weight .requests ≤ amounts .requests then
    some (amounts - credit.weight)
  else none

/-- No room for the credit under the caps. -/
def Full (caps amounts : Counter → Nat) (credit : Credit) : Prop :=
  caps .bytes - credit.bytes < amounts .bytes ∨ caps .records ≤ amounts .records ∨
    credit.peer.isSome ∧ caps .requests ≤ amounts .requests

instance (caps amounts : Counter → Nat) (credit : Credit) : Decidable (Full caps amounts credit) :=
  inferInstanceAs (Decidable (_ ∨ _))

/-- The counters are the sums over the credits, within the caps. -/
structure Counted (caps amounts : Counter → Nat) (live : List Credit) : Prop where
  total : amounts = (live.map Credit.weight).sum
  within : amounts ≤ caps

namespace Counted

variable {caps amounts : Counter → Nat} {live : List Credit} {credit : Credit}

theorem perm (h : Counted caps amounts live) {other : List Credit} (hperm : live.Perm other) :
    Counted caps amounts other :=
  ⟨h.total.trans (hperm.map _).sum_eq, h.within⟩

theorem add (h : Counted caps amounts live) (hbytes : credit.bytes ≤ caps .bytes)
    (hroom : ¬ Full caps amounts credit) :
    Counted caps (amounts + credit.weight) (credit :: live) := by
  simp only [Full, not_or, not_and] at hroom
  obtain ⟨hbytesRoom, hrecords, hrequests⟩ := hroom
  refine ⟨?_, ?_⟩
  · rw [h.total, List.map_cons, List.sum_cons, add_comm]
  · intro counter
    have hle := h.within counter
    cases counter <;> simp only [Pi.add_apply, Credit.weight]
    · omega
    · omega
    · split
      · have hlt := hrequests ‹_›
        omega
      · exact hle

/-- A live credit can return what it took. -/
theorem sub (h : Counted caps amounts (credit :: live)) :
    ∃ left, returned amounts credit = some left ∧ Counted caps left live := by
  have htotal := h.total
  rw [List.map_cons, List.sum_cons] at htotal
  have hleft : amounts - credit.weight = (live.map Credit.weight).sum := by
    rw [htotal, add_tsub_cancel_left]
  have hle : credit.weight ≤ amounts := htotal ▸ le_self_add
  exact ⟨_, if_pos ⟨hle _, hle _, hle _⟩, hleft, tsub_le_self.trans h.within⟩

end Counted

/-- The counters of a driver, with its peers' rows. -/
structure DriverCounted (counts : Counts) (live : List Credit) : Prop where
  counted : Counted driverCaps counts.amounts live
  rows : Shows counts.peers live
  limit : ∀ peer kind, owners live peer kind ≤ kind.limit

namespace DriverCounted

variable {counts : Counts} {live : List Credit} {credit : Credit}

theorem perm (h : DriverCounted counts live) {other : List Credit} (hperm : live.Perm other) :
    DriverCounted counts other := by
  have howners : owners other = owners live := by
    funext peer kind
    exact (hperm.countP_eq _).symm
  refine ⟨h.counted.perm hperm, fun peer => ?_, ?_⟩
  · rw [howners]
    exact h.rows peer
  · rw [howners]
    exact h.limit

theorem add (h : DriverCounted counts live) (hbytes : credit.bytes ≤ driverCaps .bytes)
    (hroom : ¬ Full driverCaps counts.amounts credit)
    (hpeer : ∀ request ∈ credit.peer, counts.peers.held request.1 request.2 < request.2.limit) :
    DriverCounted ⟨counts.amounts + credit.weight, counts.peers.add credit.peer⟩
      (credit :: live) := by
  refine ⟨h.counted.add hbytes hroom, h.rows.add credit, ?_⟩
  intro peer kind
  rw [owners, List.countP_cons]
  split
  · rename_i hmine
    have hlt := hpeer _ (of_decide_eq_true hmine)
    rw [h.rows.held] at hlt
    exact hlt
  · exact h.limit peer kind

theorem sub (h : DriverCounted counts (credit :: live)) :
    ∃ amounts peers, returned counts.amounts credit = some amounts ∧
      counts.peers.sub credit.peer = some peers ∧ DriverCounted ⟨amounts, peers⟩ live := by
  obtain ⟨amounts, hamounts, hcounted⟩ := h.counted.sub
  obtain ⟨peers, hpeers, hrows⟩ := h.rows.sub
  refine ⟨amounts, peers, hamounts, hpeers, hcounted, hrows, fun peer kind => ?_⟩
  have hle := h.limit peer kind
  rw [owners, List.countP_cons] at hle
  exact (Nat.le_add_right _ _).trans hle

end DriverCounted

/-! ## Drivers and their process -/

/-- The counters of the process and of each driver, with the credits whose last owner is alive. -/
structure Delivery where
  process : Counter → Nat := 0
  driver : Nat → Counts := fun _ => {}
  live : List Credit := []

namespace Delivery

/-- What a charge is refused for: its own size, the totals, or the requests of its peer. -/
def Refuses (state : Delivery) (credit : Credit) : Prop :=
  driverCaps .bytes < credit.bytes ∨ Full processCaps state.process credit ∨
    Full driverCaps (state.driver credit.driver).amounts credit ∨
    ∃ request ∈ credit.peer,
      request.2.limit ≤ (state.driver credit.driver).peers.held request.1 request.2

instance (state : Delivery) (credit : Credit) : Decidable (state.Refuses credit) :=
  inferInstanceAs (Decidable (_ ∨ _))

/-- Charge the process and the driver for a payload. -/
def charge (state : Delivery) (driver bytes : Nat) (peer : Requester) : Option Credit × Delivery :=
  match checkedAddNat bytes overhead with
  | none => (none, state)
  | some bytes =>
    let credit : Credit := ⟨driver, bytes, peer⟩
    let counts := state.driver driver
    if state.Refuses credit then (none, state)
    else
      (some credit,
        { process := state.process + credit.weight
          driver := Function.update state.driver driver
            ⟨counts.amounts + credit.weight, counts.peers.add peer⟩
          live := credit :: state.live })

/-- Charge for a request of a peer, in the class of its first byte. -/
def chargeRequest (state : Delivery) (driver bytes : Nat) (peer : NetPeerId) (kind : Option UInt8) :
    Option Credit × Delivery :=
  state.charge driver bytes (some (peer, RequestClass.forKind kind))

/-- Room for the peak of a response: two copies of it. -/
def retain (state : Delivery) (driver bytes : Nat) : Option Credit × Delivery :=
  if maxFrame < bytes then (none, state) else state.charge driver (bytes * 2) none

/-- The last owner of the live credit at the position goes. -/
def drop (state : Delivery) (index : Nat) : Option Delivery :=
  match state.live[index]? with
  | none => some state
  | some credit => do
    let counts := state.driver credit.driver
    let process ← returned state.process credit
    let amounts ← returned counts.amounts credit
    let peers ← counts.peers.sub credit.peer
    some
      { process
        driver := Function.update state.driver credit.driver ⟨amounts, peers⟩
        live := state.live.eraseIdx index }

/-- The steps that drivers interleave. -/
inductive Event where
  | charge (driver bytes : Nat) (peer : Requester)
  | chargeRequest (driver bytes : Nat) (peer : NetPeerId) (kind : Option UInt8)
  | retain (driver bytes : Nat)
  | drop (index : Nat)

/-- One step. It fails where the program would stop. -/
def step (state : Delivery) : Event → Option Delivery
  | .charge driver bytes peer => some (state.charge driver bytes peer).2
  | .chargeRequest driver bytes peer kind => some (state.chargeRequest driver bytes peer kind).2
  | .retain driver bytes => some (state.retain driver bytes).2
  | .drop index => state.drop index

/-- The run of a program that stops at the first failed step. -/
def after (events : List Event) : Option Delivery :=
  run (fun state event => state.bind fun current => current.step event) (some {}) events

/-- The live credits of one driver. -/
def liveOf (state : Delivery) (driver : Nat) : List Credit :=
  state.live.filter fun credit => credit.driver = driver

/-- Every counter stands for live credits. -/
structure Conserved (state : Delivery) : Prop where
  process : Counted processCaps state.process state.live
  driver : ∀ driver, DriverCounted (state.driver driver) (state.liveOf driver)

variable {state : Delivery}

/-- One driver's counters change by one of its credits; the others keep theirs. -/
theorem driver_update (credit : Credit) {old new : List Credit} {counts : Counts}
    (hperm : old.Perm (credit :: new) ∨ new.Perm (credit :: old))
    (h : ∀ driver, DriverCounted (state.driver driver) (old.filter (·.driver = driver)))
    (hcounts : DriverCounted counts (new.filter (·.driver = credit.driver))) (driver : Nat) :
    DriverCounted (Function.update state.driver credit.driver counts driver)
      (new.filter (·.driver = driver)) := by
  by_cases hdriver : driver = credit.driver
  · rw [hdriver, Function.update_self]
    exact hcounts
  · rw [Function.update_of_ne hdriver]
    refine (h driver).perm ?_
    rcases hperm with hperm | hperm
    · simpa [Ne.symm hdriver] using hperm.filter (·.driver = driver)
    · simpa [Ne.symm hdriver] using (hperm.filter (·.driver = driver)).symm

theorem Conserved.charge (h : state.Conserved) (driver bytes : Nat)
    (peer : Requester) : (state.charge driver bytes peer).2.Conserved := by
  unfold Delivery.charge
  split
  · exact h
  rename_i total _
  dsimp only
  split
  · exact h
  rename_i hroom
  simp only [Refuses, not_or, not_exists, not_and, Nat.not_le, Nat.not_lt] at hroom
  obtain ⟨hbytes, hprocess, hdriver, hpeer⟩ := hroom
  refine ⟨h.process.add (hbytes.trans (by decide)) hprocess, ?_⟩
  refine driver_update ⟨driver, total, peer⟩ (.inr .rfl) h.driver ?_
  rw [List.filter_cons_of_pos (by simp)]
  exact (h.driver driver).add hbytes hdriver hpeer

theorem Conserved.drop (h : state.Conserved) (index : Nat) :
    ∃ left, state.drop index = some left ∧ left.Conserved := by
  unfold Delivery.drop
  cases hcredit : state.live[index]? with
  | none => exact ⟨state, rfl, h⟩
  | some credit =>
    obtain ⟨hindex, rfl⟩ := List.getElem?_eq_some_iff.mp hcredit
    have hperm := (List.getElem_cons_eraseIdx_perm hindex).symm
    obtain ⟨process, hprocess, hprocessLeft⟩ := (h.process.perm hperm).sub
    have hown := (h.driver state.live[index].driver).perm (hperm.filter _)
    rw [List.filter_cons_of_pos (by simp)] at hown
    obtain ⟨amounts, peers, hamounts, hpeers, hleft⟩ := hown.sub
    have hdriver := driver_update _ (.inl hperm) h.driver hleft
    refine ⟨⟨process, Function.update state.driver _ ⟨amounts, peers⟩, _⟩, ?_, hprocessLeft,
      hdriver⟩
    simp [hprocess, hamounts, hpeers]

theorem Conserved.step (h : state.Conserved) (event : Event) :
    ∃ left, state.step event = some left ∧ left.Conserved := by
  cases event with
  | charge driver bytes peer => exact ⟨_, rfl, h.charge driver bytes peer⟩
  | chargeRequest driver bytes peer kind => exact ⟨_, rfl, h.charge driver bytes _⟩
  | retain driver bytes =>
    refine ⟨_, rfl, ?_⟩
    unfold retain
    split
    · exact h
    · exact h.charge driver _ none
  | drop index => exact h.drop index

end Delivery

end Net
end Mewtual
