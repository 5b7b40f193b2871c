import Mewtual.Epoch.Gate
import Mewtual.Lib.Machine
import Mewtual.Lib.Run

/-!
# Rate limits of registry gossip

Registry frames are charged to one bucket for the whole inbox and, once they are authenticated, to
a bucket of their author and document. A bucket is a fixed-point number that the clock refills; a
clock that runs back refills nothing. Rows of authors that are full again are forgotten.

Main results:

- Theorem {lit}`RegistryIngress.rates_hold`: what a row pays is bounded by its burst and by what
  the clock refilled, and a charge that can have a row ends as if no row was ever forgotten.
-/

namespace Mewtual.Sync

open Std

/-! ## Buckets -/

/-- A token bucket: one token is a thousand units. -/
structure Rate where
  units : Nat
  atMs : Nat
deriving DecidableEq, Repr

namespace Rate

/-- A bucket at its burst. -/
def full (now burst : Nat) : Rate := ⟨burst * 1000, now⟩

/-- What the clock adds, up to the burst. A clock that runs back adds nothing. -/
def refill (now perSecond burst : Nat) (rate : Rate) : Rate where
  units := min (saturatingAdd rate.units (saturatingMul (now - rate.atMs) perSecond)) (burst * 1000)
  atMs := max rate.atMs now

/-- Refill, and take a token if there is one. -/
def charge (now perSecond burst : Nat) (rate : Rate) : Bool × Rate :=
  let rate := rate.refill now perSecond burst
  if rate.units < 1000 then (false, rate) else (true, { rate with units := rate.units - 1000 })

/-- A reading of the clock at which a row is refilled and, it may be, charged. -/
structure Use where
  now : Nat
  charges : Bool

/-- The row after a use. -/
def use (perSecond burst : Nat) (rate : Rate) (event : Use) : Rate :=
  if event.charges then (rate.charge event.now perSecond burst).2
  else rate.refill event.now perSecond burst

/-- The tokens that a use takes. -/
def taken (perSecond burst : Nat) (rate : Rate) (event : Use) : Nat :=
  if event.charges ∧ (rate.charge event.now perSecond burst).1 then 1 else 0

/-- The charges that were paid. -/
def paid (perSecond burst : Nat) : Rate → List Use → Nat
  | _, [] => 0
  | rate, event :: later =>
    rate.taken perSecond burst event + paid perSecond burst (rate.use perSecond burst event) later

/-- The running maximum of the clock. -/
def clock (start : Nat) (uses : List Use) : Nat := (uses.map Use.now).foldl max start

theorem le_clock (start : Nat) (uses : List Use) : start ≤ clock start uses := by
  induction uses generalizing start with
  | nil => exact Nat.le_refl start
  | cons event later ih => exact Nat.le_trans (Nat.le_max_left _ _) (ih _)

section Weight

variable (perSecond burst : Nat)

/-- What a use takes and what it leaves is what was there and what the clock refilled. -/
theorem use_le (rate : Rate) (event : Use) :
    1000 * rate.taken perSecond burst event + (rate.use perSecond burst event).units ≤
        rate.units + perSecond * (max rate.atMs event.now - rate.atMs) ∧
      (rate.use perSecond burst event).units ≤ burst * 1000 ∧
      (rate.use perSecond burst event).atMs = max rate.atMs event.now := by
  have hless : (rate.refill event.now perSecond burst).units ≤
      rate.units + perSecond * (max rate.atMs event.now - rate.atMs) := by
    have hmax : max rate.atMs event.now - rate.atMs = event.now - rate.atMs := by omega
    simp only [refill, saturatingAdd, saturatingMul, hmax, Nat.mul_comm perSecond]
    omega
  have hfull : (rate.refill event.now perSecond burst).units ≤ burst * 1000 := Nat.min_le_right _ _
  unfold taken use charge
  cases event.charges with
  | false => exact ⟨by simpa using hless, hfull, rfl⟩
  | true =>
    dsimp only
    split
    · exact ⟨by simpa using hless, hfull, rfl⟩
    · refine ⟨?_, Nat.le_trans (Nat.sub_le _ _) hfull, rfl⟩
      rw [if_pos ⟨rfl, rfl⟩, if_pos rfl]
      dsimp only
      omega

/-- A row stays within its burst and was last refilled at the latest reading so far. -/
theorem run_row (start : Nat) (past : List Use) :
    (run (use perSecond burst) (full start burst) past).units ≤ burst * 1000 ∧
      (run (use perSecond burst) (full start burst) past).atMs = clock start past := by
  refine run_induction (fun _ => True)
    (fun past (rate : Rate) => rate.units ≤ burst * 1000 ∧ rate.atMs = clock start past)
    (fun _ _ _ => trivial) ⟨Nat.le_refl _, rfl⟩ (fun past event _ ih => ?_) past trivial
  obtain ⟨-, hunits, hat⟩ := use_le perSecond burst (run (use perSecond burst) _ past) event
  exact ⟨hunits, by rw [hat, ih.2]; simp [clock]⟩

/-- What a row pays is what it had and what the clock refilled. -/
theorem paid_le (rate : Rate) (uses : List Use) :
    1000 * rate.paid perSecond burst uses ≤
      rate.units + perSecond * (clock rate.atMs uses - rate.atMs) := by
  induction uses generalizing rate with
  | nil => simp [paid]
  | cons event later ih =>
    obtain ⟨hstep, -, hat⟩ := use_le perSecond burst rate event
    have hlater := ih (rate.use perSecond burst event)
    rw [hat] at hlater
    have hclock := le_clock (max rate.atMs event.now) later
    have hsame : clock rate.atMs (event :: later) = clock (max rate.atMs event.now) later := rfl
    have hsplit : clock rate.atMs (event :: later) - rate.atMs =
        (max rate.atMs event.now - rate.atMs) +
          (clock (max rate.atMs event.now) later - max rate.atMs event.now) := by
      omega
    rw [hsplit, Nat.mul_add, paid]
    omega

end Weight

/-! ## Rows of authors -/

/-- Ten tokens a second and a burst of fifty: the saturation is above the burst. -/
theorem refill_author (now : Nat) (rate : Rate) :
    rate.refill now 10 50 =
      ⟨min (rate.units + (now - rate.atMs) * 10) 50000, max rate.atMs now⟩ := by
  simp only [refill, saturatingAdd, saturatingMul, usizeMax, mk.injEq, and_true]
  omega

/-- Refilling in two steps is refilling once. -/
theorem refill_refill {rate : Rate} {now later : Nat} (hat : rate.atMs ≤ now) (hnow : now ≤ later) :
    (rate.refill now 10 50).refill later 10 50 = rate.refill later 10 50 := by
  simp only [refill_author, mk.injEq]
  omega

end Rate

def maxQueue : Nat := 16

def maxRateRows : Nat := 4096

def maxPacket : Nat := maxSignedEpochOpBytes + 78

variable {κ : Type} [Ord κ] [TransOrd κ]

/-- The row of an author at a reading of the clock, made if it is missing. -/
def row (found : Option Rate) (now : Nat) : Rate := found.getD (.full now 50)

/-- The rows that are not full again. -/
def retained (now : Nat) (authors : ExtTreeMap κ Rate) : ExtTreeMap κ Rate :=
  authors.filterMap fun _ rate =>
    if (rate.refill now 10 50).units < 50000 then some (rate.refill now 10 50) else none

/-- Charge the row of an author. There is no outcome if no row can be made. -/
def chargeAuthor (now : Nat) (key : κ) (authors : ExtTreeMap κ Rate) :
    Option Bool × ExtTreeMap κ Rate :=
  let rows := retained now authors
  if rows.contains key = false ∧ rows.size ≥ maxRateRows then (none, rows)
  else
    let charged := (row rows[key]? now).charge now 10 50
    (some charged.1, rows.insert key charged.2)

/-- What is read of a registry frame: its length, and the author and document that it authenticates
for if it opens under a watch and on the topic of its document. -/
structure Frame (κ : Type) where
  length : Nat
  author : Option κ

/-- The inbox of registry frames: its queue, the bucket that every frame pays first, and the rows of
the authors. -/
structure RegistryIngress (κ : Type) [Ord κ] [TransOrd κ] where
  watching : Bool
  queue : List (Frame κ)
  preauth : Option Rate
  authors : ExtTreeMap κ Rate

/-- A frame that arrives: it is dropped unless its length, the first bucket, the queue and the row
of its author admit it. -/
def onRegistryGossip (now : Nat) (frame : Frame κ) (inbox : RegistryIngress κ) :
    RegistryIngress κ :=
  if frame.length > maxPacket ∨ inbox.watching = false then inbox
  else
    let (paid, preauth) := (inbox.preauth.getD (.full now 200)).charge now 50 200
    let inbox := { inbox with preauth := some preauth }
    if paid = false ∨ inbox.queue.length ≥ maxQueue then inbox
    else
      match frame.author with
      | none => inbox
      | some key =>
        let (outcome, authors) := chargeAuthor now key inbox.authors
        { inbox with
          authors := authors
          queue := if outcome = some true then inbox.queue ++ [frame] else inbox.queue }

/-- What a frame does: it leaves the rows and the queue alone, or it is one charge of its author and
is queued if that was paid. -/
def Handled (now : Nat) (frame : Frame κ) (inbox next : RegistryIngress κ) : Prop :=
  (next.authors = inbox.authors ∧ next.queue = inbox.queue) ∨
    ∃ key, frame.author = some key ∧ next.authors = (chargeAuthor now key inbox.authors).2 ∧
      next.queue = if (chargeAuthor now key inbox.authors).1 = some true
        then inbox.queue ++ [frame] else inbox.queue

theorem handled_onRegistryGossip (now : Nat) (frame : Frame κ) (inbox : RegistryIngress κ) :
    Handled now frame inbox (onRegistryGossip now frame inbox) := by
  unfold onRegistryGossip
  split
  · exact .inl ⟨rfl, rfl⟩
  · dsimp only
    split
    · exact .inl ⟨rfl, rfl⟩
    · split
      · exact .inl ⟨rfl, rfl⟩
      · rename_i key hkey
        exact .inr ⟨key, hkey, rfl, rfl⟩

/-! ## Rows that are never forgotten -/

/-- The rows, and what they would be if none was ever forgotten. -/
structure Rows (κ : Type) [Ord κ] [TransOrd κ] where
  authors : ExtTreeMap κ Rate
  kept : κ → Option Rate

def Rows.step [DecidableEq κ] (rows : Rows κ) (attempt : Nat × κ) : Rows κ where
  authors := (chargeAuthor attempt.1 attempt.2 rows.authors).2
  kept := if (chargeAuthor attempt.1 attempt.2 rows.authors).1 = none then rows.kept
    else Function.update rows.kept attempt.2
      (some ((row (rows.kept attempt.2) attempt.1).charge attempt.1 10 50).2)

/-- The rows that attempts leave. -/
def Rows.after [DecidableEq κ] (attempts : List (Nat × κ)) : Rows κ :=
  run Rows.step ⟨∅, fun _ => none⟩ attempts

variable [LawfulEqOrd κ] {authors : ExtTreeMap κ Rate} {key : κ} {now later last : Nat}

/-- A row that is forgotten is full, as the one that is made in its place. -/
theorem row_retained (hat : (row authors[key]? now).atMs ≤ now) (hnow : now ≤ later) :
    (row (retained now authors)[key]? later).atMs ≤ later ∧
      (row (retained now authors)[key]? later).refill later 10 50 =
        (row authors[key]? later).refill later 10 50 := by
  rw [retained, ExtTreeMap.getElem?_filterMap']
  cases hrate : authors[key]? with
  | none => exact ⟨Nat.le_refl later, rfl⟩
  | some rate =>
    rw [hrate] at hat
    have hsame : (rate.refill now 10 50).refill later 10 50 = rate.refill later 10 50 :=
      Rate.refill_refill hat hnow
    rw [Option.bind_some]
    split
    · exact ⟨(Nat.max_le.mpr ⟨hat, Nat.le_refl now⟩).trans hnow, hsame⟩
    · rename_i hfull
      refine ⟨Nat.le_refl later, ?_⟩
      rw [show row (some rate) later = rate from rfl, ← hsame]
      simp only [row, Option.getD_none, Option.getD_some, Rate.full, Rate.refill_author,
        Rate.mk.injEq] at hat hfull ⊢
      omega

/-- From a reading on nobody can tell the rows from those that are never forgotten. -/
def Rows.Alike (last : Nat) (rows : Rows κ) : Prop :=
  ∀ now, last ≤ now → ∀ key : κ,
    (row rows.authors[key]? now).atMs ≤ now ∧
      (row rows.authors[key]? now).refill now 10 50 = (row (rows.kept key) now).refill now 10 50

/-- A key can have a row: it has one, or there is room for one more. -/
def HasRow (now : Nat) (key : κ) (authors : ExtTreeMap κ Rate) : Prop :=
  key ∈ retained now authors ∨ (retained now authors).size < maxRateRows

instance : Decidable (HasRow now key authors) := inferInstanceAs (Decidable (_ ∨ _))

omit [LawfulEqOrd κ] in
theorem not_hasRow_iff : ¬ HasRow now key authors ↔
    (retained now authors).contains key = false ∧ (retained now authors).size ≥ maxRateRows := by
  rw [HasRow, not_or, ← ExtTreeMap.contains_iff_mem, Bool.not_eq_true, Nat.not_lt]

variable [DecidableEq κ] {rows : Rows κ}

/-- One attempt: a key that can have a row is charged as if no row was ever forgotten, and no other
key is charged. -/
theorem Rows.Alike.attempt (h : rows.Alike last) (hnow : last ≤ now) (key : κ) :
    (rows.step (now, key)).Alike now ∧
      (chargeAuthor now key rows.authors).1 = if HasRow now key rows.authors
        then some ((row (rows.kept key) now).charge now 10 50).1 else none := by
  have hretained : ∀ later, now ≤ later → ∀ key : κ,
      (row (retained now rows.authors)[key]? later).atMs ≤ later ∧
        (row (retained now rows.authors)[key]? later).refill later 10 50 =
          (row (rows.kept key) later).refill later 10 50 := fun later hlater key =>
    have hrow := row_retained (h now hnow key).1 hlater
    ⟨hrow.1, hrow.2.trans (h later (hnow.trans hlater) key).2⟩
  unfold step chargeAuthor
  dsimp only
  split
  · rename_i hnone
    rw [if_neg (not_hasRow_iff.mpr hnone)]
    exact ⟨hretained, rfl⟩
  · rename_i hsome
    rw [← not_hasRow_iff, not_not] at hsome
    obtain ⟨hat, hsame⟩ := hretained now (Nat.le_refl now) key
    -- a charge sees the refilled row only
    have hcharge : (row (retained now rows.authors)[key]? now).charge now 10 50 =
        (row (rows.kept key) now).charge now 10 50 := by
      rw [Rate.charge, Rate.charge, hsame]
    have hcharged : ((row (rows.kept key) now).charge now 10 50).2.atMs ≤ now := by
      rw [← hcharge]
      exact (Rate.use_le 10 50 _ ⟨now, true⟩).2.2.trans_le (Nat.max_le.mpr ⟨hat, Nat.le_refl now⟩)
    rw [hcharge, if_neg (Option.some_ne_none _), if_pos hsome]
    refine ⟨fun later hlater other => ?_, rfl⟩
    dsimp only
    rw [getElem?_insert_self_or]
    by_cases hkey : key = other
    · rw [if_pos hkey, ← hkey, Function.update_self]
      exact ⟨hcharged.trans hlater, rfl⟩
    · rw [if_neg hkey, Function.update_of_ne (Ne.symm hkey)]
      exact hretained later hlater other

theorem Rows.Alike.attempts (h : rows.Alike last) (attempts : List (Nat × κ))
    (hclock : (last :: (attempts.map Prod.fst ++ [now])).Pairwise (· ≤ ·)) :
    (run Rows.step rows attempts).Alike now := by
  induction attempts generalizing rows last with
  | nil =>
    have hnow : last ≤ now := List.rel_of_pairwise_cons hclock (by simp)
    exact fun later hlater => h later (hnow.trans hlater)
  | cons attempt later ih =>
    have hnow : last ≤ attempt.1 := List.rel_of_pairwise_cons hclock (by simp)
    exact ih (h.attempt hnow attempt.2).1 hclock.of_cons

/-- Between any two points of a row's uses no more is paid than its burst and what the growth of the
latest reading refilled. With readings that do not decrease, a key that can have a row is charged as
if rows were never forgotten, and any other key not at all. A frame is at most one charge, of its
author. -/
theorem RegistryIngress.rates_hold :
    (∀ (perSecond burst start : Nat) (past between : List Rate.Use),
      1000 *
          (run (Rate.use perSecond burst) (.full start burst) past).paid perSecond burst between ≤
        1000 * burst +
          perSecond * (Rate.clock start (past ++ between) - Rate.clock start past)) ∧
    (∀ (attempts : List (Nat × κ)) (now : Nat) (key : κ),
      (attempts.map Prod.fst ++ [now]).Pairwise (· ≤ ·) →
      (chargeAuthor now key (Rows.after attempts).authors).1 =
        if HasRow now key (Rows.after attempts).authors
        then some ((row ((Rows.after attempts).kept key) now).charge now 10 50).1 else none) ∧
    ∀ (now : Nat) (frame : Frame κ) (inbox : RegistryIngress κ),
      Handled now frame inbox (onRegistryGossip now frame inbox) := by
  refine ⟨fun perSecond burst start past between => ?_, fun attempts now key hclock => ?_,
    handled_onRegistryGossip⟩
  · obtain ⟨hunits, hat⟩ := Rate.run_row perSecond burst start past
    have hpaid := Rate.paid_le perSecond burst
      (run (Rate.use perSecond burst) (.full start burst) past) between
    have hclock : Rate.clock start (past ++ between) =
        Rate.clock (Rate.clock start past) between := by simp [Rate.clock]
    rw [hat] at hpaid
    rw [hclock]
    omega
  · have hempty : Rows.Alike 0 (⟨∅, fun _ => none⟩ : Rows κ) := fun later _ key => by
      rw [ExtTreeMap.getElem?_empty]
      exact ⟨Nat.le_refl later, rfl⟩
    have halike := hempty.attempts attempts
      (List.pairwise_cons.mpr ⟨fun _ _ => Nat.zero_le _, hclock⟩)
    exact (halike.attempt (Nat.le_refl now) key).2

/-- The row of the first author is forgotten before its last charge, which is paid. -/
theorem RegistryIngress.rates_hold_two_authors :
    [0, 100, 5200, 6000].Pairwise (· ≤ ·) ∧
      (Rows.after [(0, 7), (100, 7), (5200, 8)]).authors.contains 7 = false ∧
      (chargeAuthor 6000 7 (Rows.after [(0, 7), (100, 7), (5200, 8)]).authors).1 = some true := by
  have hcharge := RegistryIngress.rates_hold.2.1 [(0, 7), (100, 7), (5200, 8)] 6000 7 (by decide)
  rw [if_pos (by decide +kernel)] at hcharge
  exact ⟨by decide, by decide +kernel, hcharge.trans (by decide +kernel)⟩

end Mewtual.Sync
