import Mewtual.Voice.LimitsJoins

/-!
# What protects a join

A join is guarded by a binding that is protected, or by a rate entry that is young. What guards a
join stays through a call, so that a call can bind it to no other key and cannot lower its renewal.

Main results:

- Theorem {lit}`Followed.of_chain`: what a chain keeps of a row.
- Theorem {lit}`Entered.of_chain`: a join that nothing held is counted when it is accepted.
- Theorem {lit}`marked_of_chain`: a renewal that was accepted last is the mark of its join.
-/

namespace Mewtual.Voice

open Std

/-- A lease is live throughout a call. -/
def Event.Holds (event : Event) (lease : CallLease) : Prop := ∀ view, event.live view lease = true

/-- The delegation of a binding has time left, or a pin of it is live throughout the call. -/
def Binding.Protected (event : Event) (binding : Binding) : Prop :=
  event.now < binding.deadline ∨ ∃ pin ∈ binding.pins, event.Holds pin

/-- A rate entry is younger than a minute. -/
def SeenJoin.Young (event : Event) (seen : SeenJoin) : Prop :=
  event.now - seen.created < retainMs

/-- A protected binding survives a pruning. -/
theorem Binding.Protected.mem_pruned {event : Event} {record : Record} {binding : Binding}
    (h : binding.Protected event) (hmem : binding ∈ record.bindings) (view : Nat) :
    { binding with pins := binding.pins.filter (event.live view) } ∈
      (record.pruned (event.live view) event.now).bindings := by
  refine List.mem_filter.mpr ⟨List.mem_map_of_mem hmem, ?_⟩
  rw [Bool.or_eq_true, decide_eq_true_eq, Bool.not_eq_true', List.isEmpty_eq_false_iff]
  rcases h with hdeadline | ⟨pin, hpin, hholds⟩
  · exact .inl hdeadline
  · exact .inr (List.ne_nil_of_mem (List.mem_filter.mpr ⟨hpin, hholds view⟩))

/-- What is left of a binding. -/
structure Binding.Kept (event : Event) (binding kept : Binding) : Prop where
  join : kept.join = binding.join
  keyRef : kept.keyRef = binding.keyRef
  deadline : binding.deadline ≤ kept.deadline
  renewal : binding.renewal ≤ kept.renewal
  pins : ∀ pin ∈ binding.pins, event.Holds pin → pin ∈ kept.pins

/-- What is left of a rate entry. -/
structure SeenJoin.Kept (seen kept : SeenJoin) : Prop where
  join : kept.join = seen.join
  keyRef : kept.keyRef = seen.keyRef
  created : kept.created = seen.created
  renewal : seen.renewal ≤ kept.renewal

namespace Binding.Kept

variable {event : Event} {binding kept : Binding}

theorem refl (event : Event) (binding : Binding) : binding.Kept event binding :=
  ⟨rfl, rfl, Nat.le_refl _, Nat.le_refl _, fun _ hpin _ => hpin⟩

theorem trans (h : binding.Kept event kept) {last : Binding} (hlast : kept.Kept event last) :
    binding.Kept event last where
  join := hlast.join.trans h.join
  keyRef := hlast.keyRef.trans h.keyRef
  deadline := h.deadline.trans hlast.deadline
  renewal := h.renewal.trans hlast.renewal
  pins := fun pin hpin hholds => hlast.pins pin (h.pins pin hpin hholds) hholds

theorem isProtected (h : binding.Kept event kept) (hprotected : binding.Protected event) :
    kept.Protected event := by
  rcases hprotected with hdeadline | ⟨pin, hpin, hholds⟩
  · exact .inl (hdeadline.trans_le h.deadline)
  · exact .inr ⟨pin, h.pins pin hpin hholds, hholds⟩

end Binding.Kept

namespace SeenJoin.Kept

variable {seen kept : SeenJoin}

theorem refl (seen : SeenJoin) : seen.Kept seen := ⟨rfl, rfl, rfl, Nat.le_refl _⟩

theorem trans (h : seen.Kept kept) {last : SeenJoin} (hlast : kept.Kept last) : seen.Kept last where
  join := hlast.join.trans h.join
  keyRef := hlast.keyRef.trans h.keyRef
  created := hlast.created.trans h.created
  renewal := h.renewal.trans hlast.renewal

theorem young {event : Event} (h : seen.Kept kept) (hyoung : seen.Young event) :
    kept.Young event := by
  unfold SeenJoin.Young at hyoung ⊢
  rw [h.created]
  exact hyoung

end SeenJoin.Kept

/-! ## Rows -/

namespace Row

/-- The bindings of a row. -/
def bindings (row : Row) : List Binding := (row.map Record.bindings).getD []

/-- The rate entries of a row. -/
def joins (row : Row) : List SeenJoin := (row.map Record.joins).getD []

/-- A row that is there is sound. -/
def Sound (row : Row) : Prop := ∀ record ∈ row, record.Sound

/-- What guards a join stays. -/
structure Retains (event : Event) (row next : Row) : Prop where
  bindings : ∀ binding ∈ row.bindings, binding.Protected event →
    ∃ kept ∈ next.bindings, binding.Kept event kept
  joins : ∀ seen ∈ row.joins, seen.Young event → ∃ kept ∈ next.joins, seen.Kept kept

/-- A join is guarded with a key. -/
def Guards (event : Event) (nonce : Nonce) (keyRef : KeyRef) (row : Row) : Prop :=
  (∃ binding ∈ row.bindings, binding.join = nonce ∧ binding.keyRef = keyRef ∧
    binding.Protected event) ∨
  ∃ seen ∈ row.joins, seen.join = nonce ∧ seen.keyRef = keyRef ∧ seen.Young event

/-- No memory of a join is below a sequence. -/
structure Marked (nonce : Nonce) (mark : Nat) (row : Row) : Prop where
  bindings : ∀ binding ∈ row.bindings, binding.join = nonce → mark ≤ binding.renewal
  joins : ∀ seen ∈ row.joins, seen.join = nonce → mark ≤ seen.renewal

/-- A join is remembered with a key and a renewal. -/
def Knows (row : Row) (nonce : Nonce) (keyRef : KeyRef) (renewal : Nat) : Prop :=
  (∃ binding ∈ row.bindings, binding.join = nonce ∧ binding.keyRef = keyRef ∧
    binding.renewal = renewal) ∨
  ∃ seen ∈ row.joins, seen.join = nonce ∧ seen.keyRef = keyRef ∧ seen.renewal = renewal

/-- A join is bound to a key until a deadline. -/
def Binds (row : Row) (nonce : Nonce) (keyRef : KeyRef) (deadline : Nat) : Prop :=
  ∃ binding ∈ row.bindings, binding.join = nonce ∧ binding.keyRef = keyRef ∧
    deadline ≤ binding.deadline

/-- A join is counted at a time, with a key. -/
def Counts (row : Row) (nonce : Nonce) (keyRef : KeyRef) (now : Nat) : Prop :=
  ∃ seen ∈ row.joins, seen.join = nonce ∧ seen.keyRef = keyRef ∧ seen.created = now

/-- Nothing holds a join throughout a call: its bindings have expired, and its rate entries too. -/
structure Free (event : Event) (nonce : Nonce) (row : Row) : Prop where
  bindings : ∀ binding ∈ row.bindings, binding.join = nonce →
    binding.deadline ≤ event.now ∧ ∀ pin ∈ binding.pins, ∀ view, event.live view pin = false
  joins : ∀ seen ∈ row.joins, seen.join = nonce → ¬ seen.Young event

/-- Nothing holds a join, and no binding of it is left. -/
structure Lacks (event : Event) (nonce : Nonce) (row : Row) : Prop where
  bindings : ∀ binding ∈ row.bindings, binding.join ≠ nonce
  joins : ∀ seen ∈ row.joins, seen.join = nonce → ¬ seen.Young event

variable {nonce : Nonce} {keyRef : KeyRef} {renewal : Nat} {row : Row}

theorem Binds.knows {deadline : Nat} (h : row.Binds nonce keyRef deadline) :
    ∃ renewal, row.Knows nonce keyRef renewal := by
  obtain ⟨binding, hmem, hjoin, hkey, _⟩ := h
  exact ⟨_, .inl ⟨binding, hmem, hjoin, hkey, rfl⟩⟩

theorem Counts.knows {now : Nat} (h : row.Counts nonce keyRef now) :
    ∃ renewal, row.Knows nonce keyRef renewal := by
  obtain ⟨seen, hmem, hjoin, hkey, _⟩ := h
  exact ⟨_, .inr ⟨seen, hmem, hjoin, hkey, rfl⟩⟩

theorem Lacks.free {event : Event} (h : row.Lacks event nonce) : row.Free event nonce where
  bindings := fun binding hmem hjoin => absurd hjoin (h.bindings binding hmem)
  joins := h.joins

theorem marked_iff {mark : Nat} :
    row.Marked nonce mark ↔ ∀ keyRef renewal, row.Knows nonce keyRef renewal → mark ≤ renewal := by
  constructor
  · rintro h keyRef renewal (⟨binding, hmem, hjoin, _, rfl⟩ | ⟨seen, hmem, hjoin, _, rfl⟩)
    · exact h.bindings binding hmem hjoin
    · exact h.joins seen hmem hjoin
  · intro h
    exact ⟨fun binding hmem hjoin => h _ _ (.inl ⟨binding, hmem, hjoin, rfl, rfl⟩),
      fun seen hmem hjoin => h _ _ (.inr ⟨seen, hmem, hjoin, rfl, rfl⟩)⟩

/-- What guards a join remembers it. -/
theorem Guards.knows {event : Event} (h : row.Guards event nonce keyRef) :
    ∃ renewal, row.Knows nonce keyRef renewal := by
  rcases h with ⟨binding, hmem, hjoin, hkey, _⟩ | ⟨seen, hmem, hjoin, hkey, _⟩
  · exact ⟨_, .inl ⟨binding, hmem, hjoin, hkey, rfl⟩⟩
  · exact ⟨_, .inr ⟨seen, hmem, hjoin, hkey, rfl⟩⟩

/-- A sound row remembers one key and one renewal of a join. -/
theorem Knows.unique (hsound : row.Sound) {other : KeyRef} {later : Nat}
    (h : row.Knows nonce keyRef renewal) (hother : row.Knows nonce other later) :
    other = keyRef ∧ later = renewal := by
  cases row with
  | none => simp [Knows, bindings, joins] at h
  | some record =>
    have hrecord := hsound record rfl
    rcases h with ⟨first, hfirst, rfl, rfl, rfl⟩ | ⟨first, hfirst, rfl, rfl, rfl⟩ <;>
      rcases hother with ⟨second, hsecond, hjoin, rfl, rfl⟩ | ⟨second, hsecond, hjoin, rfl, rfl⟩
    · simp [hrecord.binding_unique hsecond hfirst hjoin]
    · exact hrecord.agree first hfirst second hsecond hjoin
    · have hagree := hrecord.agree second hsecond first hfirst hjoin.symm
      exact ⟨hagree.1.symm, hagree.2.symm⟩
    · simp [hrecord.seen_unique hsecond hfirst hjoin]

namespace Retains

variable {event : Event} {row next : Row}

theorem refl (event : Event) (row : Row) : Retains event row row where
  bindings := fun binding hmem _ => ⟨binding, hmem, .refl event binding⟩
  joins := fun seen hmem _ => ⟨seen, hmem, .refl seen⟩

theorem trans (h : Retains event row next) {last : Row} (hlast : Retains event next last) :
    Retains event row last where
  bindings := by
    intro binding hmem hprotected
    obtain ⟨kept, hkept, hsame⟩ := h.bindings binding hmem hprotected
    obtain ⟨final, hfinal, hagain⟩ := hlast.bindings kept hkept (hsame.isProtected hprotected)
    exact ⟨final, hfinal, hsame.trans hagain⟩
  joins := by
    intro seen hmem hyoung
    obtain ⟨kept, hkept, hsame⟩ := h.joins seen hmem hyoung
    obtain ⟨final, hfinal, hagain⟩ := hlast.joins kept hkept (hsame.young hyoung)
    exact ⟨final, hfinal, hsame.trans hagain⟩

theorem guards (h : Retains event row next) {nonce : Nonce} {keyRef : KeyRef}
    (hguards : row.Guards event nonce keyRef) : next.Guards event nonce keyRef := by
  rcases hguards with ⟨binding, hmem, hjoin, hkey, hprotected⟩ | ⟨seen, hmem, hjoin, hkey, hyoung⟩
  · obtain ⟨kept, hkept, hsame⟩ := h.bindings binding hmem hprotected
    exact .inl ⟨kept, hkept, hsame.join.trans hjoin, hsame.keyRef.trans hkey,
      hsame.isProtected hprotected⟩
  · obtain ⟨kept, hkept, hsame⟩ := h.joins seen hmem hyoung
    exact .inr ⟨kept, hkept, hsame.join.trans hjoin, hsame.keyRef.trans hkey, hsame.young hyoung⟩

/-- A binding with time left stays. -/
theorem binds (h : Retains event row next) {nonce : Nonce} {keyRef : KeyRef} {deadline : Nat}
    (hdeadline : event.now < deadline) (hbinds : row.Binds nonce keyRef deadline) :
    next.Binds nonce keyRef deadline := by
  obtain ⟨binding, hmem, hjoin, hkey, hlater⟩ := hbinds
  obtain ⟨kept, hkept, hsame⟩ := h.bindings binding hmem (.inl (hdeadline.trans_le hlater))
  exact ⟨kept, hkept, hsame.join.trans hjoin, hsame.keyRef.trans hkey, hlater.trans hsame.deadline⟩

/-- What is counted in a call stays counted. -/
theorem counts (h : Retains event row next) {nonce : Nonce} {keyRef : KeyRef}
    (hcounts : row.Counts nonce keyRef event.now) : next.Counts nonce keyRef event.now := by
  obtain ⟨seen, hmem, hjoin, hkey, hcreated⟩ := hcounts
  have hyoung : seen.Young event := by
    unfold SeenJoin.Young retainMs
    omega
  obtain ⟨kept, hkept, hsame⟩ := h.joins seen hmem hyoung
  exact ⟨kept, hkept, hsame.join.trans hjoin, hsame.keyRef.trans hkey, hsame.created.trans hcreated⟩

/-- A guarded join keeps its mark: its guard does, and nothing else remembers it otherwise. -/
theorem marked (h : Retains event row next) (hsound : next.Sound) {nonce : Nonce}
    {keyRef : KeyRef} (hguards : row.Guards event nonce keyRef) {mark : Nat}
    (hmarked : row.Marked nonce mark) : next.Marked nonce mark := by
  obtain ⟨key, renewal, hknows, hmark⟩ :
      ∃ key renewal, next.Knows nonce key renewal ∧ mark ≤ renewal := by
    rcases hguards with ⟨binding, hmem, hjoin, _, hprotected⟩ | ⟨seen, hmem, hjoin, _, hyoung⟩
    · obtain ⟨kept, hkept, hsame⟩ := h.bindings binding hmem hprotected
      exact ⟨_, _, .inl ⟨kept, hkept, hsame.join.trans hjoin, rfl, rfl⟩,
        (hmarked.bindings binding hmem hjoin).trans hsame.renewal⟩
    · obtain ⟨kept, hkept, hsame⟩ := h.joins seen hmem hyoung
      exact ⟨_, _, .inr ⟨kept, hkept, hsame.join.trans hjoin, rfl, rfl⟩,
        (hmarked.joins seen hmem hjoin).trans hsame.renewal⟩
  refine marked_iff.mpr fun other later hother => ?_
  rw [(hknows.unique hsound hother).2]
  exact hmark

/-- Protected bindings survive a pruning. -/
theorem pruned (event : Event) (view : Nat) (record : Record) :
    Retains event (some record) (some (record.pruned (event.live view) event.now)) where
  bindings := by
    intro binding hmem hprotected
    refine ⟨_, hprotected.mem_pruned hmem view, rfl, rfl, Nat.le_refl _, Nat.le_refl _, ?_⟩
    exact fun pin hpin hholds => List.mem_filter.mpr ⟨hpin, hholds view⟩
  joins := fun seen hmem _ => ⟨seen, hmem, .refl seen⟩

/-- A row that is forgotten guards nothing. -/
theorem collect (event : Event) (view : Nat) {row : Row} (h : row.Sound) :
    Retains event row (row.collect (event.live view) event.now) := by
  cases row with
  | none => exact .refl event none
  | some record =>
    have hpruned := Retains.pruned event view record
    rcases collect_cases (event.live view) event.now record with hkept | ⟨hgone, hidle, hempty⟩
    · rw [hkept]
      exact hpruned
    · rw [hgone]
      refine ⟨fun binding hmem hprotected => ?_, fun seen hmem hyoung => ?_⟩
      · obtain ⟨kept, hmem, _⟩ := hpruned.bindings binding hmem hprotected
        have hmem : kept ∈ (record.pruned (event.live view) event.now).bindings := hmem
        rw [hempty] at hmem
        cases hmem
      · have hcreated := (h record rfl).created_le seen hmem
        unfold SeenJoin.Young at hyoung
        omega

variable {record : Record}

/-- Bindings and joins that are only added to. -/
theorem subset {event : Event} {after : Record} (hbindings : record.bindings ⊆ after.bindings)
    (hjoins : record.joins ⊆ after.joins) :
    Retains event (some record) (some after) where
  bindings := fun binding hmem _ => ⟨binding, hbindings hmem, .refl event binding⟩
  joins := fun seen hmem _ => ⟨seen, hjoins hmem, .refl seen⟩

theorem visit (event : Event) (view : Nat) {row : Row} (h : row.Sound)
    {credit : Except VoiceError Unit}
    (hvisit : row.visit credit (event.live view) event.now = .ok record) :
    Retains event row (some record) := by
  have hcollect := Retains.collect event view h
  rcases visit_cases hvisit with ⟨found, hfound, rfl⟩ | ⟨hnone, rfl⟩
  · rw [hfound] at hcollect
    exact hcollect.trans (.subset (List.Subset.refl _) (List.Subset.refl _))
  · rw [hnone] at hcollect
    refine ⟨fun binding hmem hprotected => ?_, fun seen hmem hyoung => ?_⟩
    · obtain ⟨kept, hkept, _⟩ := hcollect.bindings binding hmem hprotected
      cases hkept
    · obtain ⟨kept, hkept, _⟩ := hcollect.joins seen hmem hyoung
      cases hkept

theorem updateBindings {event : Event} {matched : Binding → Bool} {change : Binding → Binding}
    (hchange : ∀ binding, record.bindings.find? matched = some binding →
      binding.Kept event (change binding)) :
    Retains event (some record)
      (some { record with bindings := updateFirst matched change record.bindings }) where
  bindings := by
    intro binding hmem _
    rcases exists_updateFirst change hmem with hkept | ⟨hfound, hchanged⟩
    · exact ⟨binding, hkept, .refl event binding⟩
    · exact ⟨change binding, hchanged, hchange binding hfound⟩
  joins := fun seen hmem _ => ⟨seen, hmem, .refl seen⟩

theorem updateJoins {event : Event} {matched : SeenJoin → Bool} {change : SeenJoin → SeenJoin}
    (hchange : ∀ seen, record.joins.find? matched = some seen → seen.Kept (change seen)) :
    Retains event (some record)
      (some { record with joins := updateFirst matched change record.joins }) where
  bindings := fun binding hmem _ => ⟨binding, hmem, .refl event binding⟩
  joins := by
    intro seen hmem _
    rcases exists_updateFirst change hmem with hkept | ⟨hfound, hchanged⟩
    · exact ⟨seen, hkept, .refl seen⟩
    · exact ⟨change seen, hchanged, hchange seen hfound⟩

theorem recentJoins (event : Event) (record : Record) :
    Retains event (some record) (some (record.recentJoins event.now)) where
  bindings := fun binding hmem _ => ⟨binding, hmem, .refl event binding⟩
  joins := fun seen hmem hyoung =>
    ⟨seen, List.mem_filter.mpr ⟨hmem, decide_eq_true hyoung⟩, .refl seen⟩

theorem join (event : Event) (nonce : Nonce) (keyRef : KeyRef) (deadline : Nat) (record : Record) :
    Retains event (some record) (some (record.join nonce keyRef event.now deadline).2) := by
  have hrecent := Retains.recentJoins event record
  have hspec := record.join_spec nonce keyRef event.now deadline
  generalize record.join nonce keyRef event.now deadline = result at hspec
  obtain ⟨outcome, after⟩ := result
  dsimp only at hspec ⊢
  cases hspec with
  | refused error => exact hrecent
  | extended hbinding hkey =>
    refine hrecent.trans (Retains.updateBindings fun binding _ => ?_)
    exact ⟨rfl, rfl, Nat.le_max_left _ _, Nat.le_refl _, fun _ hpin _ => hpin⟩
  | rebound hnone hseen hkey hlength =>
    exact hrecent.trans (.subset (List.subset_append_left _ _) (List.Subset.refl _))
  | recorded hnone hunseen hjoins hlength =>
    exact hrecent.trans (.subset (List.subset_append_left _ _) (List.subset_append_left _ _))

theorem renew (event : Event) (h : record.Sound) (nonce : Nonce) (keyRef : KeyRef)
    (sequence : Nat) :
    Retains event (some record) (some (record.renew nonce keyRef sequence).2) := by
  have hspec := record.renew_spec nonce keyRef sequence
  generalize record.renew nonce keyRef sequence = result at hspec
  obtain ⟨outcome, after⟩ := result
  dsimp only at hspec ⊢
  cases hspec with
  | refused error => exact .refl event _
  | @raised binding hbinding hsequence =>
    obtain ⟨hmem, hjoin, _⟩ := of_find?_decide hbinding
    refine (Retains.updateJoins fun seen hseen => ?_).trans
      (Retains.updateBindings fun found hfound => ?_)
    · -- the rate entry has the renewal of the binding
      obtain ⟨hentry, hnonce⟩ := of_find?_decide hseen
      have hagree := h.agree binding hmem seen hentry (hnonce.trans hjoin.symm)
      exact ⟨rfl, rfl, rfl, hagree.2.trans_le hsequence⟩
    · have hsame : found = binding := Option.some.inj (hfound.symm.trans hbinding)
      exact ⟨rfl, rfl, Nat.le_refl _, hsame ▸ hsequence, fun _ hpin _ => hpin⟩

theorem protect (event : Event) (nonce : Nonce) (keyRef : KeyRef) (lease : CallLease)
    (record : Record) :
    Retains event (some record) (some (record.protect nonce keyRef lease).2) := by
  have hspec := record.protect_spec nonce keyRef lease
  generalize record.protect nonce keyRef lease = result at hspec
  obtain ⟨outcome, after⟩ := result
  dsimp only at hspec ⊢
  cases hspec with
  | unchanged outcome => exact .refl event _
  | pinned hbinding hpins =>
    refine Retains.updateBindings fun binding _ => ?_
    exact ⟨rfl, rfl, Nat.le_refl _, Nat.le_refl _, fun pin hpin _ =>
      List.mem_append_left _ hpin⟩

theorem apply (event : Event) (h : record.Sound) (act : Act) :
    Retains event (some record) (some (act.apply event.now record).2) := by
  cases act with
  | requester => exact .subset (List.Subset.refl _) (List.Subset.refl _)
  | traffic kind =>
    cases kind <;> exact .subset (List.Subset.refl _) (List.Subset.refl _)
  | join nonce keyRef deadline => exact .join event nonce keyRef deadline record
  | renew nonce keyRef sequence => exact .renew event h nonce keyRef sequence
  | protect nonce keyRef lease => exact .protect event nonce keyRef lease record

end Retains

/-! ## What a row remembers -/

variable {now : Nat} {record : Record}

variable {live : CallLease → Bool}

theorem knows_collect (h : (row.collect live now).Knows nonce keyRef renewal) :
    row.Knows nonce keyRef renewal := by
  cases row with
  | none => exact h
  | some record =>
    rcases collect_cases live now record with hkept | ⟨hgone, _⟩
    · rw [hkept] at h
      rcases h with ⟨binding, hmem, hsame⟩ | hseen
      · obtain ⟨old, hold, rfl⟩ := List.mem_map.mp (List.mem_filter.mp hmem).1
        exact .inl ⟨old, hold, hsame⟩
      · exact .inr hseen
    · rw [hgone] at h
      simp [Knows, bindings, joins] at h

theorem knows_visit {credit : Except VoiceError Unit}
    (hvisit : row.visit credit live now = .ok record)
    (h : Knows (some record) nonce keyRef renewal) : row.Knows nonce keyRef renewal := by
  rcases visit_cases hvisit with ⟨found, hfound, rfl⟩ | ⟨_, rfl⟩
  · have hcollected : (row.collect live now).Knows nonce keyRef renewal := by
      rw [hfound]
      exact h
    exact knows_collect hcollected
  · simp [Knows, bindings, joins, Record.fresh] at h

/-- A refused action remembers nothing new. -/
theorem knows_refused {act : Act} {error : VoiceError}
    (herror : (act.apply now record).1 = .error error)
    (h : Knows (some (act.apply now record).2) nonce keyRef renewal) :
    Knows (some record) nonce keyRef renewal := by
  cases act with
  | requester => exact h
  | traffic kind => cases kind <;> exact h
  | join other key deadline =>
    have hspec := record.join_spec other key now deadline
    dsimp only [Act.apply] at herror h
    rw [herror] at hspec
    generalize (record.join other key now deadline).2 = after at hspec h
    cases hspec with
    | refused error =>
      rcases h with hbinding | ⟨seen, hmem, hsame⟩
      · exact .inl hbinding
      · exact .inr ⟨seen, (List.mem_filter.mp hmem).1, hsame⟩
  | renew other key sequence =>
    have hspec := record.renew_spec other key sequence
    dsimp only [Act.apply] at herror h
    rw [herror] at hspec
    generalize (record.renew other key sequence).2 = after at hspec h
    cases hspec with
    | refused error => exact h
  | protect other key lease =>
    have hspec := record.protect_spec other key lease
    dsimp only [Act.apply] at herror h
    rw [herror] at hspec
    generalize (record.protect other key lease).2 = after at hspec h
    cases hspec with
    | unchanged outcome => exact h

/-- A join that is accepted is bound to its key. -/
theorem binds_of_join {deadline : Nat} (hok : (record.join nonce keyRef now deadline).1 = .ok ()) :
    Binds (some (record.join nonce keyRef now deadline).2) nonce keyRef deadline := by
  have hspec := record.join_spec nonce keyRef now deadline
  rw [hok] at hspec
  generalize (record.join nonce keyRef now deadline).2 = after at hspec
  cases hspec with
  | extended hbinding hkey =>
    obtain ⟨_, hjoin⟩ := of_find?_decide hbinding
    exact ⟨_, change_mem_updateFirst _ hbinding, hjoin, hkey, Nat.le_max_right _ _⟩
  | rebound hnone hseen hkey hlength | recorded hnone hunseen hjoins hlength =>
    exact ⟨_, List.mem_append_right _ (List.mem_singleton_self _), rfl, rfl, Nat.le_refl _⟩

/-- A renewal that is accepted is remembered. -/
theorem knows_of_renew {sequence : Nat} (hok : (record.renew nonce keyRef sequence).1 = .ok ()) :
    Knows (some (record.renew nonce keyRef sequence).2) nonce keyRef sequence := by
  have hspec := record.renew_spec nonce keyRef sequence
  rw [hok] at hspec
  generalize (record.renew nonce keyRef sequence).2 = after at hspec ⊢
  cases hspec with
  | raised hbinding hsequence =>
    obtain ⟨_, hjoin, hkey⟩ := of_find?_decide hbinding
    exact .inl ⟨_, change_mem_updateFirst _ hbinding, hjoin, hkey, rfl⟩

theorem Sound.collect (h : row.Sound) (live : CallLease → Bool) (now : Nat) :
    (row.collect live now).Sound := by
  intro record hrecord
  cases row with
  | none => cases hrecord
  | some old =>
    rcases collect_cases live now old with hkept | ⟨hgone, _⟩
    · rw [hkept] at hrecord
      cases hrecord
      exact (h old rfl).pruned live now
    · rw [hgone] at hrecord
      cases hrecord

theorem Sound.visit (h : row.Sound) {credit : Except VoiceError Unit}
    (hvisit : row.visit credit live now = .ok record) : Row.Sound (some record) := by
  intro visited hvisited
  cases hvisited
  rcases visit_cases hvisit with ⟨found, hfound, rfl⟩ | ⟨_, rfl⟩
  · exact (h.collect live now found hfound).touch now
  · exact .fresh now

theorem Sound.apply (h : Row.Sound (some record)) (hnow : now ≤ record.touched) (act : Act) :
    Row.Sound (some (act.apply now record).2) := by
  intro found hfound
  cases hfound
  exact (h record rfl).apply hnow act

end Row

/-! ## Chains -/

open Row

/-- What a chain keeps of a row, and what it may accept. -/
structure Followed (event : Event) (acts : List Act) (row next : Row) : Prop where
  sound : next.Sound
  retains : Retains event row next
  binds : ∀ nonce keyRef deadline, .join nonce keyRef deadline ∈ acts → event.now < deadline →
    next.Binds nonce keyRef deadline
  keys : ∀ nonce keyRef, row.Guards event nonce keyRef →
    ∀ other deadline, .join nonce other deadline ∈ acts → other = keyRef
  marks : ∀ nonce keyRef mark, row.Guards event nonce keyRef → row.Marked nonce mark →
    next.Marked nonce mark ∧ ∀ key sequence, .renew nonce key sequence ∈ acts → mark ≤ sequence

namespace Followed

variable {event : Event} {acts : List Act} {row next : Row}

/-- The row moves on without an action. -/
theorem onward (h : Followed event acts row next) {last : Row} (hsound : last.Sound)
    (hretains : Retains event next last) : Followed event acts row last where
  sound := hsound
  retains := h.retains.trans hretains
  binds := fun nonce keyRef deadline hmem hdeadline =>
    hretains.binds hdeadline (h.binds nonce keyRef deadline hmem hdeadline)
  keys := h.keys
  marks := fun nonce keyRef mark hguards hmarked =>
    ⟨(h.retains.trans hretains).marked hsound hguards hmarked,
      (h.marks nonce keyRef mark hguards hmarked).2⟩

theorem apply {record : Record} (h : Followed event acts row (some record))
    (hnow : event.now ≤ record.touched) (act : Act) :
    Followed event acts row (some (act.apply event.now record).2) :=
  h.onward (h.sound.apply hnow act) (.apply event (h.sound record rfl) act)

/-- An accepted action is known afterwards, so it agrees with what guards its join. -/
theorem concat {act : Act} (h : Followed event acts row next)
    (hjoin : ∀ nonce other deadline, act = .join nonce other deadline →
      next.Binds nonce other deadline)
    (hrenew : ∀ nonce other sequence, act = .renew nonce other sequence →
      next.Knows nonce other sequence) : Followed event (acts ++ [act]) row next := { h with
  binds := by
    intro nonce keyRef deadline hmem hdeadline
    rcases List.mem_append.mp hmem with hold | hnew
    · exact h.binds nonce keyRef deadline hold hdeadline
    · exact hjoin nonce keyRef deadline (List.mem_singleton.mp hnew).symm
  keys := by
    intro nonce keyRef hguards other deadline hmem
    rcases List.mem_append.mp hmem with hold | hnew
    · exact h.keys nonce keyRef hguards other deadline hold
    · obtain ⟨_, hguarded⟩ := (h.retains.guards hguards).knows
      obtain ⟨_, hknows⟩ := (hjoin nonce other deadline (List.mem_singleton.mp hnew).symm).knows
      exact (hguarded.unique h.sound hknows).1
  marks := by
    intro nonce keyRef mark hguards hmarked
    obtain ⟨hmark, hacts⟩ := h.marks nonce keyRef mark hguards hmarked
    refine ⟨hmark, fun key sequence hmem => ?_⟩
    rcases List.mem_append.mp hmem with hold | hnew
    · exact hacts key sequence hold
    · exact marked_iff.mp hmark _ _ (hrenew nonce key sequence (List.mem_singleton.mp hnew).symm) }

theorem of_chain (hsound : row.Sound) (hchain : Chain event acts row next) :
    Followed event acts row next := by
  refine hchain.follow (P := fun acts next => Followed event acts row next) ?_
    (fun view h => h.onward (h.sound.collect _ _) (.collect event view h.sound))
    (fun hvisit h => h.onward (h.sound.visit hvisit) (.visit event _ h.sound hvisit))
    (fun hnow hok h => (h.apply hnow _).concat ?_ ?_) (fun hnow _ h => h.apply hnow _)
  · exact ⟨hsound, .refl event row, nofun, nofun,
      fun _ _ _ _ hmarked => ⟨hmarked, nofun⟩⟩
  · rintro nonce other deadline rfl
    exact binds_of_join hok
  · rintro nonce other sequence rfl
    exact knows_of_renew hok

end Followed

/-! ## Joins that nothing held -/

namespace Row

variable {event : Event} {nonce : Nonce} {row : Row} {record : Record}

/-- A pruning leaves no binding of a join that nothing holds. -/
theorem Free.collect (h : row.Free event nonce) (view : Nat) :
    (row.collect (event.live view) event.now).Lacks event nonce := by
  cases row with
  | none => exact ⟨nofun, nofun⟩
  | some record =>
    rcases collect_cases (event.live view) event.now record with hkept | ⟨hgone, _⟩
    · rw [hkept]
      refine ⟨fun binding hmem hjoin => ?_, h.joins⟩
      obtain ⟨hmapped, hleft⟩ := List.mem_filter.mp hmem
      obtain ⟨old, hold, rfl⟩ := List.mem_map.mp hmapped
      obtain ⟨hdeadline, hpins⟩ := h.bindings old hold hjoin
      have hempty : old.pins.filter (event.live view) = [] :=
        List.filter_eq_nil_iff.mpr fun pin hpin hlive => by simp [hpins pin hpin view] at hlive
      rw [Bool.or_eq_true, decide_eq_true_eq, hempty] at hleft
      exact hleft.elim (Nat.not_lt.mpr hdeadline) (by simp)
    · rw [hgone]
      exact ⟨nofun, nofun⟩

theorem Free.visit (h : row.Free event nonce) {credit : Except VoiceError Unit} {view : Nat}
    (hvisit : row.visit credit (event.live view) event.now = .ok record) :
    Lacks event nonce (some record) := by
  have hcollect := h.collect view
  rcases visit_cases hvisit with ⟨found, hfound, rfl⟩ | ⟨_, rfl⟩
  · rw [hfound] at hcollect
    exact ⟨hcollect.bindings, hcollect.joins⟩
  · exact ⟨nofun, nofun⟩

namespace Lacks

/-- Bindings and entries that are changed in what does not name a join, or dropped. -/
theorem of_names {after : Record} (h : Lacks event nonce (some record))
    (hbindings : ∀ binding ∈ after.bindings, ∃ old ∈ record.bindings, old.join = binding.join)
    (hjoins : ∀ seen ∈ after.joins, ∃ old ∈ record.joins,
      old.join = seen.join ∧ old.created = seen.created) : Lacks event nonce (some after) where
  bindings := by
    intro binding hmem hjoin
    obtain ⟨old, hold, hsame⟩ := hbindings binding hmem
    exact h.bindings old hold (hsame.trans hjoin)
  joins := by
    intro seen hmem hjoin hyoung
    obtain ⟨old, hold, hsame, hcreated⟩ := hjoins seen hmem
    refine h.joins old hold (hsame.trans hjoin) ?_
    unfold SeenJoin.Young at hyoung ⊢
    rw [hcreated]
    exact hyoung

theorem exists_name {matched : Binding → Bool} {change : Binding → Binding}
    {bindings : List Binding}
    {binding : Binding} (hmem : binding ∈ updateFirst matched change bindings)
    (hchange : ∀ binding, (change binding).join = binding.join) :
    ∃ old ∈ bindings, old.join = binding.join := by
  rcases mem_updateFirst hmem with hold | ⟨old, hold, rfl⟩
  · exact ⟨binding, hold, rfl⟩
  · exact ⟨old, List.mem_of_find?_eq_some hold, (hchange old).symm⟩

theorem recentJoins (h : Lacks event nonce (some record)) :
    Lacks event nonce (some (record.recentJoins event.now)) :=
  h.of_names (fun binding hmem => ⟨binding, hmem, rfl⟩)
    fun seen hmem => ⟨seen, (List.mem_filter.mp hmem).1, rfl, rfl⟩

/-- A join of another name is bound, and may be counted. -/
theorem concat (h : Lacks event nonce (some record)) {binding : Binding} {joins : List SeenJoin}
    (hbinding : binding.join ≠ nonce)
    (hjoins : ∀ seen ∈ joins, seen ∈ record.joins ∨ seen.join ≠ nonce) :
    Lacks event nonce
      (some { record with joins := joins, bindings := record.bindings ++ [binding] }) where
  bindings := forall_mem_concat h.bindings hbinding
  joins := fun seen hmem hjoin =>
    h.joins seen ((hjoins seen hmem).resolve_right fun hother => hother hjoin) hjoin

/-- A join that nothing held is counted, and any other one leaves the row without it. -/
theorem join (h : Lacks event nonce (some record)) (other : Nonce) (keyRef : KeyRef)
    (deadline : Nat) :
    Lacks event nonce (some (record.join other keyRef event.now deadline).2) ∧
        (other = nonce → (record.join other keyRef event.now deadline).1 ≠ .ok ()) ∨
      Counts (some (record.join other keyRef event.now deadline).2) nonce keyRef event.now := by
  have hrecent := h.recentJoins
  have hspec := record.join_spec other keyRef event.now deadline
  generalize record.join other keyRef event.now deadline = result at hspec
  obtain ⟨outcome, after⟩ := result
  dsimp only at hspec ⊢
  cases hspec with
  | refused error => exact .inl ⟨hrecent, fun _ => nofun⟩
  | extended hbinding hkey =>
    obtain ⟨hmem, hjoin⟩ := of_find?_decide hbinding
    refine .inl ⟨hrecent.of_names (fun _ hmem => exists_name hmem fun _ => rfl)
      fun seen hseen => ⟨seen, hseen, rfl, rfl⟩, fun hsame => ?_⟩
    exact absurd (hjoin.trans hsame) (h.bindings _ hmem)
  | @rebound seen hnone hseen hkey hlength =>
    -- the entry that was found is young
    obtain ⟨hmem, hjoin⟩ := of_find?_decide hseen
    have hyoung : event.now - seen.created < retainMs :=
      of_decide_eq_true (List.mem_filter.mp hmem).2
    have hother : other ≠ nonce := fun hsame =>
      h.joins seen (List.mem_filter.mp hmem).1 (hjoin.trans hsame) hyoung
    exact .inl ⟨hrecent.concat hother fun seen hseen => .inl hseen,
      fun hsame => absurd hsame hother⟩
  | recorded hnone hunseen hjoins hlength =>
    by_cases hsame : other = nonce
    · exact .inr ⟨_, List.mem_append_right _ (List.mem_singleton_self _), hsame, rfl, rfl⟩
    · exact .inl ⟨hrecent.concat hsame (forall_mem_concat (fun seen hseen => .inl hseen)
        (.inr hsame)), fun heq => absurd heq hsame⟩

theorem apply (h : Lacks event nonce (some record)) (act : Act) :
    Lacks event nonce (some (act.apply event.now record).2) ∧
        (∀ keyRef deadline, act = .join nonce keyRef deadline →
          (act.apply event.now record).1 ≠ .ok ()) ∨
      ∃ keyRef, Counts (some (act.apply event.now record).2) nonce keyRef event.now := by
  cases act with
  | requester => exact .inl ⟨⟨h.bindings, h.joins⟩, nofun⟩
  | traffic kind => cases kind <;> exact .inl ⟨⟨h.bindings, h.joins⟩, nofun⟩
  | join other key deadline =>
    rcases h.join other key deadline with ⟨hlacks, hrefused⟩ | hcounts
    · refine .inl ⟨hlacks, fun keyRef _ hact => hrefused ?_⟩
      injection hact
    · exact .inr ⟨key, hcounts⟩
  | renew other key sequence =>
    have hspec := record.renew_spec other key sequence
    dsimp only [Act.apply]
    generalize record.renew other key sequence = result at hspec
    obtain ⟨outcome, after⟩ := result
    refine .inl ⟨?_, nofun⟩
    cases hspec with
    | refused error => exact h
    | raised hbinding hsequence =>
      refine h.of_names (fun _ hmem => exists_name hmem fun _ => rfl) fun seen hseen => ?_
      rcases mem_updateFirst hseen with hold | ⟨old, hold, rfl⟩
      · exact ⟨seen, hold, rfl, rfl⟩
      · exact ⟨old, List.mem_of_find?_eq_some hold, rfl, rfl⟩
  | protect other key lease =>
    have hspec := record.protect_spec other key lease
    dsimp only [Act.apply]
    generalize record.protect other key lease = result at hspec
    obtain ⟨outcome, after⟩ := result
    refine .inl ⟨?_, nofun⟩
    cases hspec with
    | unchanged outcome => exact h
    | pinned hbinding hpins =>
      exact h.of_names (fun _ hmem => exists_name hmem fun _ => rfl) fun seen hseen =>
        ⟨seen, hseen, rfl, rfl⟩

end Lacks
end Row

/-- Along a chain, a join that nothing held is either still unheld and was not accepted, or
counted. -/
inductive Entered (event : Event) (nonce : Nonce) (acts : List Act) (next : Row) : Prop where
  | unheld (hfree : next.Free event nonce)
      (hacts : ∀ keyRef deadline, .join nonce keyRef deadline ∉ acts) :
        Entered event nonce acts next
  | counted {keyRef : KeyRef} (hcounts : next.Counts nonce keyRef event.now) :
      Entered event nonce acts next

namespace Entered

variable {event : Event} {nonce : Nonce} {acts : List Act} {next : Row}

theorem collect (h : Entered event nonce acts next) (hsound : next.Sound) (view : Nat) :
    Entered event nonce acts (next.collect (event.live view) event.now) := by
  cases h with
  | unheld hfree hacts => exact .unheld (hfree.collect view).free hacts
  | counted hcounts => exact .counted ((Retains.collect event view hsound).counts hcounts)

/-- An action on a row that was just visited. -/
theorem apply (h : Entered event nonce acts next) (hsound : next.Sound)
    {credit : Except VoiceError Unit} {view : Nat} {record : Record}
    (hvisit : next.visit credit (event.live view) event.now = .ok record) (act : Act)
    {later : List Act}
    (hlater : ∀ accepted ∈ later, accepted ∈ acts ∨
      accepted = act ∧ (act.apply event.now record).1 = .ok ()) :
    Entered event nonce later (some (act.apply event.now record).2) := by
  cases h with
  | counted hcounts =>
    have hvisited := (Retains.visit event view hsound hvisit).counts hcounts
    exact .counted ((Retains.apply event (hsound.visit hvisit record rfl) act).counts hvisited)
  | unheld hfree hacts =>
    rcases (hfree.visit hvisit).apply act with ⟨hlacks, hrefused⟩ | ⟨keyRef, hcounts⟩
    · refine .unheld hlacks.free fun keyRef deadline hmem => ?_
      rcases hlater _ hmem with hold | ⟨hnew, hok⟩
      · exact hacts keyRef deadline hold
      · exact hrefused keyRef deadline hnew.symm hok
    · exact .counted hcounts

theorem of_chain {row : Row} (hsound : row.Sound) (hfree : row.Free event nonce)
    (hchain : Chain event acts row next) : Entered event nonce acts next := by
  induction hchain with
  | refl row => exact .unheld hfree fun _ _ => List.not_mem_nil
  | collect hchain view ih =>
    exact (ih hsound hfree).collect (Followed.of_chain hsound hchain).sound view
  | @visit acts row next hchain credit view ih =>
    have hnext := (Followed.of_chain hsound hchain).sound
    cases hvisit : next.visit credit (event.live view) event.now with
    | error error =>
      have hpruned := (ih hsound hfree).collect hnext view
      rw [collect_of_visit_error hvisit] at hpruned
      exact hpruned
    | ok record =>
      cases ih hsound hfree with
      | unheld hnone hacts => exact .unheld (hnone.visit hvisit).free hacts
      | counted hcounts => exact .counted ((Retains.visit event view hnext hvisit).counts hcounts)
  | accepted hchain hvisit hok ih =>
    refine (ih hsound hfree).apply (Followed.of_chain hsound hchain).sound hvisit _ ?_
    intro accepted hmem
    rcases List.mem_append.mp hmem with hold | hnew
    · exact .inl hold
    · exact .inr ⟨List.mem_singleton.mp hnew, hok⟩
  | refused hchain hvisit herror ih =>
    exact (ih hsound hfree).apply (Followed.of_chain hsound hchain).sound hvisit _
      fun accepted hmem => .inl hmem

end Entered

/-- A renewal that was accepted last is the mark of its join. -/
theorem marked_of_chain {event : Event} {acts earlier : List Act} {row next : Row} {nonce : Nonce}
    {keyRef : KeyRef} {sequence : Nat} (hsound : row.Sound) (hchain : Chain event acts row next)
    (hacts : acts = earlier ++ [.renew nonce keyRef sequence]) : next.Marked nonce sequence := by
  -- nothing after the renewal is accepted, so nothing new is remembered
  have hmarked : next.Sound ∧ (acts = earlier ++ [.renew nonce keyRef sequence] →
      ∀ key renewal, next.Knows nonce key renewal → sequence ≤ renewal) := by
    refine hchain.follow (P := fun acts next => next.Sound ∧
      (acts = earlier ++ [.renew nonce keyRef sequence] →
        ∀ key renewal, next.Knows nonce key renewal → sequence ≤ renewal))
      ⟨hsound, fun hnil => absurd hnil.symm (by simp)⟩
      (fun view h => ⟨h.1.collect _ _, fun hsame key renewal hknows => ?_⟩)
      (fun hvisit h => ⟨h.1.visit hvisit, fun hsame key renewal hknows => ?_⟩)
      (fun hnow hok h => ⟨h.1.apply hnow _, fun hsame key renewal hknows => ?_⟩)
      (fun hnow herror h => ⟨h.1.apply hnow _, fun hsame key renewal hknows => ?_⟩)
    · exact h.2 hsame key renewal (knows_collect hknows)
    · exact h.2 hsame key renewal (knows_visit hvisit hknows)
    · obtain ⟨_, hact⟩ := List.append_inj' hsame rfl
      cases List.cons.inj hact |>.1
      have hafter := h.1.apply hnow (.renew nonce keyRef sequence)
      exact (Knows.unique hafter (knows_of_renew hok) hknows).2.ge
    · exact h.2 hsame key renewal (knows_refused herror hknows)
  exact marked_iff.mpr (hmarked.2 hacts)

end Mewtual.Voice
