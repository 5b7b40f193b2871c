import Mewtual.Kept.Persistence

/-!
# What the disk of a transfer holds

A property of records that every successor inherits is kept by everything that can happen to the
directory of a transfer: a publication with any end, a crash that brings back any surviving state,
and an opening whose own effects may fail.

Main results:

- Theorem {lit}`Transfer.Holds.publish`: one publication.
- Theorem {lit}`Transfer.Holds.crash`: one crash.
- Theorem {lit}`Transfer.Holds.reopen`: one opening.
-/

namespace Mewtual
namespace Kept

/-- The checks of an opening up to its first effect. -/
def checkedRecord [Blake3] [Sealing] (key : Hash32) (scope : KeepScope) (name : String)
    (image : Slots Bytes) (leaves : List (Cid × Nat)) : Except StorageError Record := do
  let current ← readRecord key image.current
  let next ← readRecord key image.next
  (current.toList ++ next.toList).forM (checkPlace scope name)
  reconcile {} image leaves current next

namespace Transfer

/-- The process is gone and the directory came back as {lit}`image`. Until it is opened again the
transfer counts as poisoned. -/
def crash (image : Slots Bytes) (transfer : Transfer) : Transfer :=
  { transfer with poisoned := true, volume := Volume.mount [] image }

/-- Open the directory again. -/
def reopen [Blake3] [Sealing] (key : Hash32) (scope : KeepScope) (name : String) (io : OpenIo)
    (leaves : List (Cid × Nat)) (transfer : Transfer) : Transfer :=
  let image := transfer.volume.image
  let volume :=
    if (checkedRecord key scope name image leaves).isOk then
      transfer.volume.promote io.flush.isOk io.rename.isOk io.barrier.isOk
    else transfer.volume
  match openRecord key scope name io image leaves with
  | .ok record => ⟨record, false, volume⟩
  | .error _ => ⟨transfer.record, true, volume⟩

end Transfer

section Effects

variable [Blake3] [Sealing] {key : Hash32} {scope : KeepScope} {name : String} {io : OpenIo}
  {image : Slots Bytes} {leaves : List (Cid × Nat)} {record : Record}

omit [Blake3] in
theorem isSome_of_readRecord {found : Option Bytes} {slot : Option Record}
    (h : readRecord key found = .ok slot) (hfound : found.isSome) : slot.isSome := by
  cases slot with
  | none =>
    rw [readRecord_eq_none h] at hfound
    cases hfound
  | some record => rfl

/-- What an opening that returns has done. -/
theorem openRecord_effects (h : openRecord key scope name io image leaves = .ok record) :
    checkedRecord key scope name image leaves = .ok record ∧ io.flush.isOk = true ∧
      io.barrier.isOk = true ∧ (image.next.isSome → io.rename.isOk = true) ∧
      validateLeaves record (reconciled image) leaves = .ok () := by
  obtain ⟨current, hcurrent, h⟩ := bind_eq_ok.mp h
  obtain ⟨next, hnext, h⟩ := bind_eq_ok.mp h
  obtain ⟨⟨⟩, hplace, h⟩ := bind_eq_ok.mp h
  obtain ⟨found, hfound, h⟩ := bind_eq_ok.mp h
  obtain ⟨⟨⟩, -, h⟩ := bind_eq_ok.mp h
  obtain ⟨⟨⟩, hleaves, h⟩ := bind_eq_ok.mp h
  cases h
  obtain ⟨-, hchecked, hflush, hbarrier, hrename⟩ := reconcile_spec hfound
  refine ⟨?_, hflush, hbarrier, fun hsome => hrename (isSome_of_readRecord hnext hsome), hleaves⟩
  unfold checkedRecord
  rw [hcurrent, ok_bind, hnext, ok_bind, hplace]
  exact hchecked

/-- The file of an opened record is the temporary, if there is one, and is within the limit. -/
theorem openRecord_bytes (h : openRecord key scope name io image leaves = .ok record) :
    ∃ bytes, image.next.or image.current = some bytes ∧
      readRecord key (some bytes) = .ok (some record) ∧ bytes.length ≤ record.slotLimit := by
  obtain ⟨-, -, -, -, hleaves⟩ := openRecord_effects h
  have hread : readRecord key (image.next.or image.current) = .ok (some record) := by
    rcases openRecord_spec h with ⟨hnone, hcurrent⟩ | ⟨hnext, -⟩
    · rw [hnone]
      exact hcurrent
    · cases hslot : image.next with
      | none =>
        rw [hslot] at hnext
        cases hnext
      | some bytes =>
        rw [hslot] at hnext
        exact hnext
  cases hslot : image.next.or image.current with
  | none =>
    rw [hslot] at hread
    cases hread
  | some bytes =>
    rw [hslot] at hread
    refine ⟨bytes, rfl, hread, ?_⟩
    obtain ⟨-, hleaves⟩ := guard_eq_ok.mp hleaves
    obtain ⟨hsizes, -⟩ := guard_eq_ok.mp hleaves
    rw [Bool.not_eq_true, List.any_eq_false] at hsizes
    have hsize := hsizes bytes (by simp [reconciled, hslot])
    simpa using hsize

end Effects

/-! ## Properties that the disk keeps -/

section Properties

variable [Blake3] [Sealing] {key : Hash32} {good : Record → Prop}

/-- The record of a file, if it has one, satisfies a property. -/
def Sound (key : Hash32) (good : Record → Prop) (bytes : Bytes) : Prop :=
  ∀ record, readRecord key (some bytes) = .ok (some record) → good record

omit [Blake3] in
theorem sound_of_readRecord {record : Record} {bytes : Bytes}
    (h : readRecord key (some bytes) = .ok (some record)) (hgood : good record) :
    Sound key good bytes := by
  intro other hother
  rw [h] at hother
  cases hother
  exact hgood

omit [Blake3] in
theorem sound_of_torn {bytes : Bytes} (h : Torn key bytes) : Sound key good bytes := by
  intro record hrecord
  obtain ⟨error, herror⟩ := readRecord_torn h
  rw [herror] at hrecord
  cases hrecord

namespace Transfer

variable {transfer : Transfer}

/-- A transfer in use is ready, and every record that its disk may bring back satisfies a
property. -/
structure Holds (key : Hash32) (good : Record → Prop) (transfer : Transfer) : Prop where
  ready : transfer.poisoned = false → transfer.Ready key
  disk : transfer.volume.Within (Sound key good)

omit [Blake3] in
theorem Ready.holds (h : transfer.Ready key) (hgood : good transfer.record) :
    transfer.Holds key good := by
  obtain ⟨bytes, hsettled, hread, -⟩ := h.stored
  exact ⟨fun _ => h, hsettled.within (sound_of_readRecord hread hgood)⟩

omit [Blake3] in
/-- The record in use is one that the disk brings back. -/
theorem Holds.record (h : transfer.Holds key good) (hpoisoned : transfer.poisoned = false) :
    good transfer.record := by
  obtain ⟨bytes, hsettled, hread, -⟩ := (h.ready hpoisoned).stored
  obtain ⟨number, -, hcurrent, hfile⟩ := hsettled.current
  have hsound := h.disk.files number ⟨_, List.mem_cons_self, .inl hcurrent⟩
  rw [hfile] at hsound
  exact hsound transfer.record hread

omit [Blake3] in
theorem Holds.mono {weaker : Record → Prop} (h : transfer.Holds key good)
    (hweaker : ∀ record, good record → weaker record) : transfer.Holds key weaker :=
  ⟨h.ready, h.disk.mono fun _ hsound record hread => hweaker record (hsound record hread)⟩

/-- A publication adds at most the record that it publishes. -/
theorem Holds.publish (hseal : Sealing.Lawful) (h : transfer.Holds key good) {next : Record}
    (hnext : transfer.poisoned = false → transfer.record.validateSuccessor next = .ok () →
      good next)
    (nonce : Fixed 24) (io : ReplaceStep → Effect) :
    (transfer.publish key nonce io next).2.Holds key good := by
  cases hpoisoned : transfer.poisoned with
  | true =>
    unfold Transfer.publish
    rw [hpoisoned]
    exact h
  | false =>
    cases hsuccessor : transfer.record.validateSuccessor next with
    | error error =>
      unfold Transfer.publish
      rw [hpoisoned, hsuccessor]
      exact h
    | ok =>
      have hready := h.ready hpoisoned
      have hgood := hnext hpoisoned hsuccessor
      have hends := publish_ready hseal hready hsuccessor nonce io
      have hread : readRecord key (some (diskBytes key nonce next)) = .ok (some next) :=
        readRecord_diskBytes hseal nonce (validate_of_validateSuccessor hsuccessor)
      have hdisk := h.disk.replace (sound_of_torn (torn_nil key))
        (sound_of_readRecord hread hgood) io
      rw [publish_eq hpoisoned hsuccessor] at hends ⊢
      generalize transfer.volume.replace io [] (diskBytes key nonce next) = outcome
        at hends hdisk
      obtain ⟨result, volume⟩ := outcome
      cases result with
      | replaced => exact ⟨fun _ => (hends.1 rfl).1, hdisk⟩
      | refused => exact ⟨fun _ => (hends.2 rfl).1, hdisk⟩
      | broken | crashed => exact ⟨nofun, hdisk⟩

omit [Blake3] in
/-- A crash adds nothing. -/
theorem Holds.crash (h : transfer.Holds key good) {image : Slots Bytes}
    (himage : transfer.volume.Survives (Torn key) image) :
    (transfer.crash image).Holds key good := by
  refine ⟨nofun, Volume.within_mount [] fun bytes hbytes => ?_⟩
  rcases h.disk.survives himage bytes hbytes with hsound | htorn
  · exact hsound
  · exact sound_of_torn htorn

/-- An opening adds nothing, and a transfer that it returns is ready. -/
theorem Holds.reopen (h : transfer.Holds key good) (scope : KeepScope) (name : String)
    (io : OpenIo) (leaves : List (Cid × Nat)) :
    (transfer.reopen key scope name io leaves).Holds key good := by
  have hdisk : Volume.Within (Sound key good)
      (if (checkedRecord key scope name transfer.volume.image leaves).isOk then
        transfer.volume.promote io.flush.isOk io.rename.isOk io.barrier.isOk
      else transfer.volume) := by
    split_ifs
    · exact h.disk.promote _ _ _
    · exact h.disk
  unfold Transfer.reopen
  dsimp only
  cases hopen : openRecord key scope name io transfer.volume.image leaves with
  | error error => exact ⟨nofun, hdisk⟩
  | ok record =>
    refine ⟨fun _ => ⟨rfl, ?_⟩, hdisk⟩
    obtain ⟨hchecked, hflush, hbarrier, hrename, -⟩ := openRecord_effects hopen
    obtain ⟨bytes, hbytes, hread, hsize⟩ := openRecord_bytes hopen
    have hok : (checkedRecord key scope name transfer.volume.image leaves).isOk = true := by
      rw [hchecked]
      rfl
    refine ⟨bytes, ?_, hread, hsize⟩
    dsimp only
    rw [if_pos hok, hflush, hbarrier]
    refine Volume.promote_settled h.disk hbytes fun hsome => hrename ?_
    unfold Volume.image
    rw [Option.isSome_map]
    exact hsome

end Transfer

end Properties

end Kept
end Mewtual
