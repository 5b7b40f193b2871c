import Mathlib.Logic.Function.Basic
import Mathlib.Tactic.Basic
import Mathlib.Tactic.SplitIfs

/-!
# Replacing a file atomically

A file is replaced by writing a temporary beside it, flushing the temporary, renaming it over the
file and flushing the directory. When the volume is full before the rename, the temporary is
removed again. Every effect may fail or be cut short by a crash.

A crash brings back the directory as it was at some moment since its last flush. A flushed file has
its bytes; of a file that was not flushed nothing is known but that it has the bytes written to it
or bytes that are recognizably torn.

Main results:

- Theorem {lit}`Volume.replace_ends`: a reported replacement is final, so is a refusal, and in
  every other case the next reader finds the old file, the new one, or a torn temporary.
- Theorem {lit}`Volume.Within.replace`: a replacement adds only the bytes that it writes.
- Theorem {lit}`Volume.promote_settled`: a user who finishes the replacement of a former one is left
  with one file.
-/

namespace Mewtual

/-- The file and its temporary. -/
structure Slots (α : Type) where
  current : Option α
  next : Option α
deriving DecidableEq

structure StoredFile (β : Type) where
  bytes : β
  synced : Bool

/-- A directory with the states it had since its last flush. Files are kept by number. -/
structure Volume (β : Type) where
  files : Nat → StoredFile β
  fresh : Nat
  live : Slots Nat
  views : List (Slots Nat)

/-- The steps of a replacement. -/
inductive ReplaceStep where
  | create | write | sync | rename | barrier | remove | removeBarrier
deriving DecidableEq

/-- How one effect ends; {lit}`full` tells a full volume from other failures. -/
inductive Effect where
  | done
  | failed (full : Bool)
  | crashed
deriving DecidableEq

/-- How a replacement ends. After a refusal the old file is in force; nothing is known of a broken
one. -/
inductive ReplaceEnd where
  | replaced
  | refused
  | broken
  | crashed
deriving DecidableEq

namespace Volume

variable {β : Type}

/-! ## Effects -/

/-- Change the directory; the state before may still come back. -/
def relink (volume : Volume β) (live : Slots Nat) : Volume β :=
  { volume with live := live, views := volume.live :: volume.views }

/-- An empty temporary. -/
def create (volume : Volume β) (empty : β) : Volume β :=
  { volume.relink { volume.live with next := some volume.fresh } with
    files := Function.update volume.files volume.fresh ⟨empty, false⟩
    fresh := volume.fresh + 1 }

/-- Replace what the temporary holds. -/
def setNext (volume : Volume β) (file : StoredFile β) : Volume β :=
  { volume with
    files := volume.live.next.elim volume.files fun number =>
      Function.update volume.files number file }

def rename (volume : Volume β) : Volume β :=
  volume.relink { current := volume.live.next, next := none }

def remove (volume : Volume β) : Volume β :=
  volume.relink { volume.live with next := none }

/-- Flush the directory. -/
def barrier (volume : Volume β) : Volume β := { volume with views := [] }

/-! ## The replacement -/

/-- A full volume before the rename: take the temporary away again. -/
def discard (io : ReplaceStep → Effect) (created : Bool) (volume : Volume β) :
    ReplaceEnd × Volume β :=
  let removed := if created then volume.remove else volume
  match if created then io .remove else .done with
  | .failed _ => (.broken, volume)
  | .crashed => (.crashed, removed)
  | .done =>
    match io .removeBarrier with
    | .failed _ => (.broken, removed)
    | .crashed => (.crashed, removed)
    | .done => (.refused, removed.barrier)

/-- An effect before the rename failed. -/
def giveUp (io : ReplaceStep → Effect) (full created : Bool) (volume : Volume β) :
    ReplaceEnd × Volume β :=
  if full then volume.discard io created else (.broken, volume)

/-- Rename the flushed temporary over the file and flush the directory. -/
def commit (io : ReplaceStep → Effect) (volume : Volume β) : ReplaceEnd × Volume β :=
  match io .rename with
  | .failed _ => (.broken, volume)
  | .crashed => (.crashed, volume.rename)
  | .done =>
    match io .barrier with
    | .failed _ => (.broken, volume.rename)
    | .crashed => (.crashed, volume.rename)
    | .done => (.replaced, volume.rename.barrier)

/-- Fill and flush the temporary. A write or a flush that does not end leaves the file unflushed. -/
def fill (io : ReplaceStep → Effect) (bytes : β) (volume : Volume β) : ReplaceEnd × Volume β :=
  let written := volume.setNext ⟨bytes, false⟩
  match io .write with
  | .failed full => written.giveUp io full true
  | .crashed => (.crashed, written)
  | .done =>
    match io .sync with
    | .failed full => written.giveUp io full true
    | .crashed => (.crashed, written)
    | .done => (written.setNext ⟨bytes, true⟩).commit io

/-- Write the temporary, sync it, rename it and sync the directory. -/
def replace (io : ReplaceStep → Effect) (empty bytes : β) (volume : Volume β) :
    ReplaceEnd × Volume β :=
  -- The temporary of another writer is never taken over.
  if volume.live.next.isSome then (.broken, volume)
  else
    match io .create with
    | .failed full => volume.giveUp io full false
    | .crashed => (.crashed, volume.create empty)
    | .done => (volume.create empty).fill io bytes

/-! ## What survives -/

/-- A slot as a reader finds it. -/
def Shows (torn : β → Prop) (files : Nat → StoredFile β) : Option Nat → Option β → Prop
  | none, found => found = none
  | some number, found => ∃ bytes, found = some bytes ∧
      (bytes = (files number).bytes ∨ (files number).synced = false ∧ torn bytes)

/-- The directory a reader may find, after a crash or without one. -/
def Survives (torn : β → Prop) (volume : Volume β) (image : Slots β) : Prop :=
  ∃ view ∈ volume.live :: volume.views,
    Shows torn volume.files view.current image.current ∧
      Shows torn volume.files view.next image.next

/-- One flushed file and nothing else, now and after any crash. -/
structure Settled (volume : Volume β) (bytes : β) : Prop where
  next : volume.live.next = none
  views : volume.views = []
  current : ∃ number < volume.fresh, volume.live.current = some number ∧
    volume.files number = ⟨bytes, true⟩

variable {torn : β → Prop} {volume : Volume β} {old : β} {bytes : β} {file : StoredFile β}

theorem shows_synced {files : Nat → StoredFile β} {number : Nat} (h : files number = ⟨bytes, true⟩)
    {found : Option β} (hshows : Shows torn files (some number) found) : found = some bytes := by
  obtain ⟨content, rfl, hcontent | ⟨hsynced, -⟩⟩ := hshows
  · rw [hcontent, h]
  · rw [h] at hsynced
    cases hsynced

theorem shows_unsynced {files : Nat → StoredFile β} {number : Nat}
    (h : files number = ⟨bytes, false⟩) {found : Option β}
    (hshows : Shows torn files (some number) found) :
    found = some bytes ∨ ∃ content, found = some content ∧ torn content := by
  obtain ⟨content, rfl, hcontent | ⟨-, htorn⟩⟩ := hshows
  · rw [hcontent, h]
    exact .inl rfl
  · exact .inr ⟨content, rfl, htorn⟩

/-- A settled directory comes back as it is. -/
theorem Settled.survives (h : volume.Settled old) {image : Slots β}
    (hsurvives : volume.Survives torn image) : image = ⟨some old, none⟩ := by
  obtain ⟨view, hview, hcurrent, hnext⟩ := hsurvives
  obtain ⟨number, -, hlive, hfile⟩ := h.current
  rw [h.views, List.mem_singleton] at hview
  rw [hview, hlive] at hcurrent
  rw [hview, h.next] at hnext
  cases image
  rw [Slots.mk.injEq]
  exact ⟨shows_synced hfile hcurrent, hnext⟩

/-- The directory while a replacement runs: the old file, and one temporary number. -/
structure Replacing (volume : Volume β) (old : β) (temporary : Nat) (file : StoredFile β) :
    Prop where
  live : ∃ number < temporary, volume.live = ⟨some number, some temporary⟩ ∧
    volume.views = [⟨some number, none⟩] ∧ volume.files number = ⟨old, true⟩
  file : volume.files temporary = file
  fresh : temporary < volume.fresh

theorem Settled.create (h : volume.Settled old) (empty : β) :
    (volume.create empty).Replacing old volume.fresh ⟨empty, false⟩ := by
  obtain ⟨number, hlt, hlive, hfile⟩ := h.current
  have hslots : volume.live = ⟨some number, none⟩ := by
    rw [← hlive, ← h.next]
  refine ⟨⟨number, hlt, ?_, ?_, ?_⟩, Function.update_self _ _ _, Nat.lt_succ_self _⟩
  · simp [Volume.create, relink, hlive]
  · simp [Volume.create, relink, h.views, hslots]
  · exact (Function.update_of_ne (Nat.ne_of_lt hlt) _ _).trans hfile

theorem Replacing.setNext {temporary : Nat} {file next : StoredFile β}
    (h : volume.Replacing old temporary file) :
    (volume.setNext next).Replacing old temporary next := by
  obtain ⟨number, hlt, hlive, hviews, hfile⟩ := h.live
  have hfiles : (volume.setNext next).files = Function.update volume.files temporary next := by
    simp [Volume.setNext, hlive]
  refine ⟨⟨number, hlt, hlive, hviews, ?_⟩, ?_, h.fresh⟩
  · rw [hfiles, Function.update_of_ne (Nat.ne_of_lt hlt), hfile]
  · rw [hfiles, Function.update_self]

/-- The old file, alone or with the temporary in one of its states. -/
theorem Replacing.survives {temporary : Nat} (h : volume.Replacing old temporary file)
    {image : Slots β} (hsurvives : volume.Survives torn image) :
    image = ⟨some old, none⟩ ∨
      image.current = some old ∧ Shows torn volume.files (some temporary) image.next := by
  obtain ⟨number, -, hlive, hviews, hfile⟩ := h.live
  obtain ⟨view, hview, hcurrent, hnext⟩ := hsurvives
  rw [hlive, hviews, List.mem_cons, List.mem_singleton] at hview
  rcases hview with rfl | rfl
  · exact .inr ⟨shows_synced hfile hcurrent, hnext⟩
  · left
    cases image
    rw [Slots.mk.injEq]
    exact ⟨shows_synced hfile hcurrent, hnext⟩

/-! ## How a replacement can end -/

/-- What a reader may find after a replacement of {lit}`old` by {lit}`new`. -/
inductive Survivor (torn : β → Prop) (old new : β) (flushed : Prop) : Slots β → Prop
  | old : Survivor torn old new flushed ⟨some old, none⟩
  | torn (bytes : β) (htorn : torn bytes) (hflushed : ¬ flushed) :
      Survivor torn old new flushed ⟨some old, some bytes⟩
  | pending : Survivor torn old new flushed ⟨some old, some new⟩
  | new : Survivor torn old new flushed ⟨some new, none⟩

structure Ends (torn : β → Prop) (old new : β) (flushed : Prop)
    (outcome : ReplaceEnd × Volume β) : Prop where
  replaced : outcome.1 = .replaced → outcome.2.Settled new
  refused : outcome.1 = .refused → outcome.2.Settled old
  survives : ∀ image, outcome.2.Survives torn image → Survivor torn old new flushed image

variable {new : β} {flushed : Prop} {io : ReplaceStep → Effect} {temporary : Nat}

/-- An end without a report has to be described by its survivors only. -/
theorem Ends.of_survives {result : ReplaceEnd} {after : Volume β}
    (hresult : result = .broken ∨ result = .crashed)
    (h : ∀ image, after.Survives torn image → Survivor torn old new flushed image) :
    Ends torn old new flushed (result, after) := by
  refine ⟨?_, ?_, h⟩
  · intro hreplaced
    rcases hresult with rfl | rfl <;> cases hreplaced
  · intro hrefused
    rcases hresult with rfl | rfl <;> cases hrefused

theorem Settled.survivor (h : volume.Settled old) {image : Slots β}
    (hsurvives : volume.Survives torn image) : Survivor torn old new flushed image := by
  rw [h.survives hsurvives]
  exact .old

/-- The temporary is empty, torn or complete. -/
theorem Replacing.survivor (h : volume.Replacing old temporary ⟨bytes, false⟩)
    (hbytes : bytes = new ∨ torn bytes) (hflushed : ¬ flushed) {image : Slots β}
    (hsurvives : volume.Survives torn image) : Survivor torn old new flushed image := by
  rcases h.survives hsurvives with rfl | ⟨hcurrent, hnext⟩
  · exact .old
  · obtain ⟨current, next⟩ := image
    cases hcurrent
    rcases shows_unsynced h.file hnext with hwritten | ⟨content, hcontent, htorn⟩
    · cases hwritten
      rcases hbytes with rfl | htorn
      · exact .pending
      · exact .torn bytes htorn hflushed
    · cases hcontent
      exact .torn content htorn hflushed

/-- Removing the temporary only adds the directory without it. -/
theorem Replacing.remove_survives (h : volume.Replacing old temporary file) {image : Slots β}
    (hsurvives : volume.remove.Survives torn image) :
    image = ⟨some old, none⟩ ∨ volume.Survives torn image := by
  obtain ⟨number, -, hlive, hviews, hfile⟩ := h.live
  obtain ⟨view, hview, hcurrent, hnext⟩ := hsurvives
  rcases List.mem_cons.mp hview with rfl | hbefore
  · left
    have hslots : volume.remove.live = ⟨some number, none⟩ := by
      simp [Volume.remove, relink, hlive]
    rw [hslots] at hcurrent hnext
    cases image
    rw [Slots.mk.injEq]
    exact ⟨shows_synced hfile hcurrent, hnext⟩
  · exact .inr ⟨view, hbefore, hcurrent, hnext⟩

theorem Replacing.remove_settled (h : volume.Replacing old temporary file) :
    volume.remove.barrier.Settled old := by
  obtain ⟨number, hlt, hlive, -, hfile⟩ := h.live
  have hcurrent : volume.live.current = some number := by rw [hlive]
  exact ⟨rfl, rfl, number, Nat.lt_trans hlt h.fresh, hcurrent, hfile⟩

theorem Replacing.giveUp (h : volume.Replacing old temporary ⟨bytes, false⟩)
    (hbytes : bytes = new ∨ torn bytes) (hflushed : ¬ flushed) (full : Bool) :
    Ends torn old new flushed (volume.giveUp io full true) := by
  have hkept : ∀ image, volume.Survives torn image → Survivor torn old new flushed image :=
    fun image => h.survivor hbytes hflushed
  have hremoved : ∀ image, volume.remove.Survives torn image →
      Survivor torn old new flushed image := by
    intro image hsurvives
    rcases h.remove_survives hsurvives with rfl | hbefore
    · exact .old
    · exact hkept image hbefore
  unfold Volume.giveUp discard
  cases full with
  | false => exact .of_survives (.inl rfl) hkept
  | true =>
    simp only [if_true]
    cases io .remove with
    | failed => exact .of_survives (.inl rfl) hkept
    | crashed => exact .of_survives (.inr rfl) hremoved
    | done =>
      cases io .removeBarrier with
      | failed => exact .of_survives (.inl rfl) hremoved
      | crashed => exact .of_survives (.inr rfl) hremoved
      | done =>
        exact ⟨nofun, fun _ => h.remove_settled,
          fun image => h.remove_settled.survivor⟩

/-- Nothing was created yet. -/
theorem Settled.giveUp (h : volume.Settled old) (full : Bool) :
    Ends torn old new flushed (volume.giveUp io full false) := by
  have hkept : ∀ image, volume.Survives torn image → Survivor torn old new flushed image :=
    fun image => h.survivor
  have hsettled : volume.barrier.Settled old := ⟨h.next, rfl, h.current⟩
  unfold Volume.giveUp discard
  cases full with
  | false => exact .of_survives (.inl rfl) hkept
  | true =>
    simp only [if_true, Bool.false_eq_true, if_false]
    cases io .removeBarrier with
    | failed => exact .of_survives (.inl rfl) hkept
    | crashed => exact .of_survives (.inr rfl) hkept
    | done =>
      exact ⟨nofun, fun _ => hsettled,
        fun image => hsettled.survivor⟩

/-- A flushed temporary is complete, whatever becomes of the rename. -/
theorem Replacing.commit {temporary : Nat} (h : volume.Replacing old temporary ⟨new, true⟩) :
    Ends torn old new flushed (volume.commit io) := by
  obtain ⟨number, hlt, hlive, hviews, hfile⟩ := h.live
  have hkept : ∀ image, volume.Survives torn image → Survivor torn old new flushed image := by
    intro image hsurvives
    rcases h.survives hsurvives with rfl | ⟨hcurrent, hnext⟩
    · exact .old
    · obtain ⟨current, next⟩ := image
      cases hcurrent
      cases shows_synced h.file hnext
      exact .pending
  have hrenamed : volume.rename.live = ⟨some temporary, none⟩ := by
    simp [Volume.rename, relink, hlive]
  have hmoved : ∀ image, volume.rename.Survives torn image →
      Survivor torn old new flushed image := by
    rintro image ⟨view, hview, hcurrent, hnext⟩
    rcases List.mem_cons.mp hview with rfl | hbefore
    · rw [hrenamed] at hcurrent hnext
      obtain ⟨current, next⟩ := image
      cases shows_synced h.file hcurrent
      cases hnext
      exact .new
    · exact hkept image ⟨view, hbefore, hcurrent, hnext⟩
  have hsettled : volume.rename.barrier.Settled new := by
    refine ⟨?_, rfl, temporary, h.fresh, ?_, h.file⟩
    · exact congrArg Slots.next hrenamed
    · exact congrArg Slots.current hrenamed
  unfold Volume.commit
  cases io .rename with
  | failed => exact .of_survives (.inl rfl) hkept
  | crashed => exact .of_survives (.inr rfl) hmoved
  | done =>
    cases io .barrier with
    | failed => exact .of_survives (.inl rfl) hmoved
    | crashed => exact .of_survives (.inr rfl) hmoved
    | done =>
      refine ⟨fun _ => hsettled, nofun, fun image hsurvives => ?_⟩
      rw [hsettled.survives hsurvives]
      exact .new

/-- How every replacement ends. A torn temporary is left only if it was never flushed. -/
theorem replace_ends (h : volume.Settled old) {empty : β} (hempty : torn empty)
    (io : ReplaceStep → Effect) (new : β) :
    Ends torn old new (io .create = .done ∧ io .write = .done ∧ io .sync = .done)
      (volume.replace io empty new) := by
  have hcreated := h.create empty
  have hwritten : ((volume.create empty).setNext ⟨new, false⟩).Replacing old volume.fresh
      ⟨new, false⟩ := hcreated.setNext
  unfold replace fill
  rw [if_neg (by simp [h.next])]
  cases hcreate : io .create with
  | failed full => exact h.giveUp full
  | crashed =>
    refine .of_survives (.inr rfl) fun image => hcreated.survivor (.inr hempty) ?_
    exact fun hdone => by cases hdone.1
  | done =>
    cases hwrite : io .write with
    | failed full => exact hwritten.giveUp (.inl rfl) (fun hdone => by cases hdone.2.1) full
    | crashed =>
      refine .of_survives (.inr rfl) fun image => hwritten.survivor (.inl rfl) ?_
      exact fun hdone => by cases hdone.2.1
    | done =>
      cases hsync : io .sync with
      | failed full => exact hwritten.giveUp (.inl rfl) (fun hdone => by cases hdone.2.2) full
      | crashed =>
        refine .of_survives (.inr rfl) fun image => hwritten.survivor (.inl rfl) ?_
        exact fun hdone => by cases hdone.2.2
      | done => exact hwritten.setNext.commit

/-! ## Using the directory again -/

/-- The directory as a reader finds it now. -/
def image (volume : Volume β) : Slots β :=
  ⟨volume.live.current.map fun number => (volume.files number).bytes,
    volume.live.next.map fun number => (volume.files number).bytes⟩

/-- The directory that came back from a crash. -/
def mount (empty : β) (image : Slots β) : Volume β where
  files number := ⟨(if number = 0 then image.current else image.next).getD empty, true⟩
  fresh := 2
  live := ⟨image.current.map fun _ => 0, image.next.map fun _ => 1⟩
  views := []

/-- Flush one file. -/
def flush (slot : Option Nat) (volume : Volume β) : Volume β :=
  { volume with
    files := slot.elim volume.files fun number =>
      Function.update volume.files number ⟨(volume.files number).bytes, true⟩ }

/-- Finish a replacement that a former user began: the temporary, if there is one, is flushed and
renamed, and the directory is flushed. The arguments say which effects were done. -/
def promote (flushed renamed settled : Bool) (volume : Volume β) : Volume β :=
  if flushed = false then volume
  else if volume.live.next.isNone then
    let volume := volume.flush volume.live.current
    if settled then volume.barrier else volume
  else
    let volume := volume.flush volume.live.next
    if renamed = false then volume
    else if settled then volume.rename.barrier
    else volume.rename

/-- A file that a state of the directory names. -/
def Names (volume : Volume β) (number : Nat) : Prop :=
  ∃ view ∈ volume.live :: volume.views, view.current = some number ∨ view.next = some number

/-- Every file that may come back satisfies a condition. -/
structure Within (p : β → Prop) (volume : Volume β) : Prop where
  fresh : ∀ number, volume.Names number → number < volume.fresh
  files : ∀ number, volume.Names number → p (volume.files number).bytes

variable {p : β → Prop}

theorem Within.mono {q : β → Prop} (h : volume.Within p) (hweaker : ∀ bytes, p bytes → q bytes) :
    volume.Within q :=
  ⟨h.fresh, fun number hnames => hweaker _ (h.files number hnames)⟩

/-- Fewer names and the same bytes. -/
theorem Within.of_names {after : Volume β} (h : volume.Within p)
    (hnames : ∀ number, after.Names number → volume.Names number)
    (hfresh : volume.fresh ≤ after.fresh)
    (hfiles : ∀ number, (after.files number).bytes = (volume.files number).bytes) :
    after.Within p := by
  refine ⟨fun number hnamed => ?_, fun number hnamed => ?_⟩
  · exact Nat.lt_of_lt_of_le (h.fresh number (hnames number hnamed)) hfresh
  · rw [hfiles]
    exact h.files number (hnames number hnamed)

theorem Settled.within (h : volume.Settled old) (hold : p old) : volume.Within p := by
  obtain ⟨number, hlt, hlive, hfile⟩ := h.current
  have hnames : ∀ other, volume.Names other → other = number := by
    rintro other ⟨view, hview, hslot⟩
    rw [h.views, List.mem_singleton] at hview
    rw [hview, hlive, h.next] at hslot
    rcases hslot with hslot | hslot
    · exact (Option.some.inj hslot).symm
    · cases hslot
  refine ⟨fun other hnamed => ?_, fun other hnamed => ?_⟩
  · rw [hnames other hnamed]
    exact hlt
  · rw [hnames other hnamed, hfile]
    exact hold

/-- What a reader finds satisfies the condition or is torn. -/
theorem Within.survives (h : volume.Within p) {image : Slots β}
    (hsurvives : volume.Survives torn image) (bytes : β)
    (hbytes : image.current = some bytes ∨ image.next = some bytes) : p bytes ∨ torn bytes := by
  obtain ⟨view, hview, hcurrent, hnext⟩ := hsurvives
  have hshows : ∀ slot found, Shows torn volume.files slot found → found = some bytes →
      (∀ number, slot = some number → volume.Names number) → p bytes ∨ torn bytes := by
    intro slot found hshows hfound hnames
    cases slot with
    | none =>
      rw [show found = none from hshows] at hfound
      cases hfound
    | some number =>
      obtain ⟨content, hcontent, hcases⟩ := hshows
      rw [hfound] at hcontent
      cases hcontent
      rcases hcases with rfl | ⟨-, htorn⟩
      · exact .inl (h.files number (hnames number rfl))
      · exact .inr htorn
  rcases hbytes with hbytes | hbytes
  · exact hshows _ _ hcurrent hbytes fun number hslot => ⟨view, hview, .inl hslot⟩
  · exact hshows _ _ hnext hbytes fun number hslot => ⟨view, hview, .inr hslot⟩

theorem within_mount (empty : β) {image : Slots β}
    (h : ∀ bytes, image.current = some bytes ∨ image.next = some bytes → p bytes) :
    (mount empty image).Within p := by
  have hnames : ∀ number, (mount empty image).Names number →
      (number = 0 ∧ image.current.isSome) ∨ (number = 1 ∧ image.next.isSome) := by
    rintro number ⟨view, hview, hslot⟩
    rw [List.mem_singleton.mp hview] at hslot
    rcases hslot with hslot | hslot
    · obtain ⟨bytes, hbytes, rfl⟩ := Option.map_eq_some_iff.mp hslot
      exact .inl ⟨rfl, by rw [hbytes]; rfl⟩
    · obtain ⟨bytes, hbytes, rfl⟩ := Option.map_eq_some_iff.mp hslot
      exact .inr ⟨rfl, by rw [hbytes]; rfl⟩
  refine ⟨fun number hnamed => ?_, fun number hnamed => ?_⟩
  · rcases hnames number hnamed with ⟨rfl, -⟩ | ⟨rfl, -⟩
    · exact Nat.zero_lt_two
    · exact Nat.one_lt_two
  · rcases hnames number hnamed with ⟨rfl, hsome⟩ | ⟨rfl, hsome⟩
    · obtain ⟨bytes, hbytes⟩ := Option.isSome_iff_exists.mp hsome
      exact h _ (.inl (by simp [mount, hbytes]))
    · obtain ⟨bytes, hbytes⟩ := Option.isSome_iff_exists.mp hsome
      exact h _ (.inr (by simp [mount, hbytes]))

@[simp] theorem flush_bytes (slot : Option Nat) (volume : Volume β) (number : Nat) :
    ((volume.flush slot).files number).bytes = (volume.files number).bytes := by
  unfold flush
  cases slot with
  | none => rfl
  | some flushed =>
    by_cases heq : number = flushed
    · subst heq
      simp
    · simp [heq]

section

variable (h : volume.Within p)

include h

theorem Within.flush (slot : Option Nat) : (volume.flush slot).Within p :=
  h.of_names (fun _ hnamed => hnamed) (Nat.le_refl _) (flush_bytes slot volume)

theorem Within.barrier : volume.barrier.Within p := by
  refine h.of_names ?_ (Nat.le_refl _) (fun _ => rfl)
  rintro number ⟨view, hview, hslot⟩
  rw [List.mem_singleton.mp hview] at hslot
  exact ⟨volume.live, List.mem_cons_self, hslot⟩

/-- A change of the directory that names no new file. -/
theorem Within.relink {live : Slots Nat}
    (hlive : ∀ number, live.current = some number ∨ live.next = some number →
      volume.live.current = some number ∨ volume.live.next = some number) :
    (volume.relink live).Within p := by
  refine h.of_names ?_ (Nat.le_refl _) (fun _ => rfl)
  rintro number ⟨view, hview, hslot⟩
  rcases List.mem_cons.mp hview with rfl | hview
  · exact ⟨volume.live, List.mem_cons_self, hlive number hslot⟩
  · exact ⟨view, hview, hslot⟩

theorem Within.rename : volume.rename.Within p := by
  refine h.relink fun number hslot => ?_
  rcases hslot with hslot | hslot
  · exact .inr hslot
  · cases hslot

theorem Within.remove : volume.remove.Within p := by
  refine h.relink fun number hslot => ?_
  rcases hslot with hslot | hslot
  · exact .inl hslot
  · cases hslot

theorem Within.create {empty : β} (hempty : p empty) :
    (volume.create empty).Within p := by
  have hnames : ∀ number, (volume.create empty).Names number →
      number = volume.fresh ∨ volume.Names number := by
    rintro number ⟨view, hview, hslot⟩
    rcases List.mem_cons.mp hview with rfl | hview
    · rcases hslot with hslot | hslot
      · exact .inr ⟨volume.live, List.mem_cons_self, .inl hslot⟩
      · exact .inl (Option.some.inj hslot).symm
    · exact .inr ⟨view, hview, hslot⟩
  refine ⟨fun number hnamed => ?_, fun number hnamed => ?_⟩
  · rcases hnames number hnamed with rfl | hbefore
    · exact Nat.lt_succ_self _
    · exact Nat.lt_succ_of_lt (h.fresh number hbefore)
  · by_cases hfresh : number = volume.fresh
    · subst hfresh
      simp [Volume.create, hempty]
    · have hbefore := (hnames number hnamed).resolve_left hfresh
      simp only [Volume.create, Function.update_of_ne hfresh]
      exact h.files number hbefore

theorem Within.setNext (hfile : p file.bytes) :
    (volume.setNext file).Within p := by
  refine ⟨h.fresh, fun number hnamed => ?_⟩
  have hbefore := h.files number hnamed
  unfold Volume.setNext
  cases volume.live.next with
  | none => exact hbefore
  | some temporary =>
    by_cases heq : number = temporary
    · subst heq
      simpa using hfile
    · simpa [heq] using hbefore

theorem Within.giveUp (io : ReplaceStep → Effect) (full created : Bool) :
    (volume.giveUp io full created).2.Within p := by
  have hremoved : (if created then volume.remove else volume).Within p := by
    cases created with
    | false => exact h
    | true => exact h.remove
  unfold Volume.giveUp discard
  cases full with
  | false => exact h
  | true =>
    simp only [if_true]
    cases if created = true then io .remove else .done with
    | failed => exact h
    | crashed => exact hremoved
    | done =>
      cases io .removeBarrier with
      | failed | crashed => exact hremoved
      | done => exact hremoved.barrier

theorem Within.commit (io : ReplaceStep → Effect) :
    (volume.commit io).2.Within p := by
  unfold Volume.commit
  cases io .rename with
  | failed => exact h
  | crashed => exact h.rename
  | done =>
    cases io .barrier with
    | failed | crashed => exact h.rename
    | done => exact h.rename.barrier

/-- A replacement adds only the bytes that it writes. -/
theorem Within.replace {empty bytes : β} (hempty : p empty)
    (hbytes : p bytes) (io : ReplaceStep → Effect) :
    (volume.replace io empty bytes).2.Within p := by
  have hcreated := h.create hempty
  have hwritten : ((volume.create empty).setNext ⟨bytes, false⟩).Within p :=
    hcreated.setNext hbytes
  unfold Volume.replace fill
  by_cases hnext : volume.live.next.isSome = true
  · rw [if_pos hnext]
    exact h
  rw [if_neg hnext]
  cases io .create with
  | failed full => exact h.giveUp io full false
  | crashed => exact hcreated
  | done =>
    cases io .write with
    | failed full => exact hwritten.giveUp io full true
    | crashed => exact hwritten
    | done =>
      cases io .sync with
      | failed full => exact hwritten.giveUp io full true
      | crashed => exact hwritten
      | done => exact (hwritten.setNext hbytes).commit io

theorem Within.promote (flushed renamed settled : Bool) :
    (volume.promote flushed renamed settled).Within p := by
  have hcurrent := h.flush volume.live.current
  have hnext := h.flush volume.live.next
  unfold Volume.promote
  dsimp only
  split_ifs
  · exact h
  · exact hcurrent.barrier
  · exact hcurrent
  · exact hnext
  · exact hnext.rename.barrier
  · exact hnext.rename

/-- A replacement that was finished leaves one file. -/
theorem promote_settled
    (hbytes : volume.image.next.or volume.image.current = some bytes) {renamed : Bool}
    (hrenamed : volume.live.next.isSome → renamed = true) :
    (volume.promote true renamed true).Settled bytes := by
  have hsettles : ∀ slot number, slot = some number → volume.Names number →
      (volume.files number).bytes = bytes →
      number < (volume.flush slot).fresh ∧ (volume.flush slot).files number = ⟨bytes, true⟩ := by
    intro slot number hslot hnames hfile
    refine ⟨h.fresh number hnames, ?_⟩
    rw [hslot, ← hfile]
    exact Function.update_self _ _ _
  unfold Volume.promote
  cases hnext : volume.live.next with
  | none =>
    cases hcurrent : volume.live.current with
    | none => simp [image, hnext, hcurrent] at hbytes
    | some number =>
      have hfile : (volume.files number).bytes = bytes := by
        simpa [image, hnext, hcurrent] using hbytes
      obtain ⟨hlt, hflushed⟩ := hsettles (some number) number rfl
        ⟨volume.live, List.mem_cons_self, .inl hcurrent⟩ hfile
      exact ⟨hnext, rfl, number, hlt, hcurrent, hflushed⟩
  | some number =>
    have hfile : (volume.files number).bytes = bytes := by
      simpa [image, hnext] using hbytes
    obtain ⟨hlt, hflushed⟩ := hsettles (some number) number rfl
      ⟨volume.live, List.mem_cons_self, .inr hnext⟩ hfile
    rw [hrenamed (by rw [hnext]; rfl)]
    exact ⟨rfl, rfl, number, hlt, hnext, hflushed⟩

end

end Volume

end Mewtual
