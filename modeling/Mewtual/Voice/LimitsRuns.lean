import Mewtual.Voice.LimitsGuards
import Mewtual.Voice.LimitsSpending

/-!
# Runs of the origin limits

The table over whole runs of calls under a clock that does not go back, with rows that are forgotten
and opened again.

Main results:

- Theorem {lit}`OriginLimits.origin_limits_hold`: charges and joins stay within their rates, a
  guarded join keeps its key and its renewals go up, and a refused packet takes nothing.
-/

namespace Mewtual.Voice

open Std Row

/-! ## Joins of a minute -/

/-- Joins that a row counts, with their times. -/
def Row.pairs (row : Row) : List (Nonce × Nat) :=
  row.joins.map fun seen => (seen.join, seen.created)

/-- The join was counted less than a minute ago. -/
def recentAt (now : Nat) (entry : Nonce × Nat) : Bool := decide (now - entry.2 < retainMs)

theorem pairs_recentJoins (now : Nat) (record : Record) :
    Row.pairs (some (record.recentJoins now)) =
      (Row.pairs (some record)).filter (recentAt now) := by
  unfold Row.pairs
  rw [List.filter_map]
  rfl

/-- What an action does to the joins that a row counts. -/
theorem pairs_apply (act : Act) (now : Nat) (record : Record) :
    Row.pairs (some (act.apply now record).2) = Row.pairs (some record) ∨
      Row.pairs (some (act.apply now record).2) =
        (Row.pairs (some record)).filter (recentAt now) ∨
      ∃ nonce, ((Row.pairs (some record)).filter (recentAt now)).length < 4 ∧
        Row.pairs (some (act.apply now record).2) =
          (Row.pairs (some record)).filter (recentAt now) ++ [(nonce, now)] := by
  cases act with
  | requester => exact .inl rfl
  | traffic kind => cases kind <;> exact .inl rfl
  | join nonce keyRef deadline =>
    have hspec := record.join_spec nonce keyRef now deadline
    dsimp only [Act.apply]
    generalize record.join nonce keyRef now deadline = result at hspec
    obtain ⟨outcome, after⟩ := result
    rw [← pairs_recentJoins]
    right
    cases hspec with
    | refused | extended | rebound => exact .inl rfl
    | recorded hnone hunseen hjoins hlength =>
      refine .inr ⟨nonce, ?_, ?_⟩
      · rw [Row.pairs, List.length_map]
        exact hjoins
      · exact List.map_append
  | renew nonce keyRef sequence =>
    have hspec := record.renew_spec nonce keyRef sequence
    dsimp only [Act.apply]
    generalize record.renew nonce keyRef sequence = result at hspec
    obtain ⟨outcome, after⟩ := result
    left
    cases hspec with
    | refused error => rfl
    | raised hbinding hsequence =>
      refine map_updateFirst ?_ record.joins
      exact fun _ => rfl
  | protect nonce keyRef lease =>
    have hspec := record.protect_spec nonce keyRef lease
    dsimp only [Act.apply]
    generalize record.protect nonce keyRef lease = result at hspec
    obtain ⟨outcome, after⟩ := result
    left
    cases hspec with
    | unchanged | pinned => rfl

/-- The joins of the last minute are those that the row counts, and no minute has more than four. -/
structure Recorded (recorded : List (Nonce × Nat)) (now : Nat) (row : Row) : Prop where
  past : ∀ entry ∈ recorded, entry.2 ≤ now
  recent : recorded.filter (recentAt now) = row.pairs.filter (recentAt now)
  windows : ∀ start, recorded.countP
    (fun entry => start ≤ entry.2 ∧ entry.2 < start + retainMs) ≤ 4

namespace Recorded

variable {recorded : List (Nonce × Nat)} {now : Nat} {row : Row}

theorem nil (now : Nat) : Recorded [] now none where
  past := nofun
  recent := rfl
  windows := fun _ => Nat.zero_le _

/-- What is recent later was recent before. -/
theorem filter_later {next : Nat} (hnext : now ≤ next) (entries : List (Nonce × Nat)) :
    (entries.filter (recentAt now)).filter (recentAt next) = entries.filter (recentAt next) := by
  rw [List.filter_filter]
  refine List.filter_congr fun entry _ => ?_
  unfold recentAt
  rw [← Bool.decide_and]
  refine decide_eq_decide.mpr ⟨fun h => h.1, fun h => ⟨h, ?_⟩⟩
  omega

theorem later (h : Recorded recorded now row) {next : Nat} (hnext : now ≤ next) :
    Recorded recorded next row where
  past := fun entry hentry => (h.past entry hentry).trans hnext
  recent := by
    rw [← filter_later hnext recorded, h.recent, filter_later hnext]
  windows := h.windows

/-- A row that counts the same recent joins. -/
theorem congr (h : Recorded recorded now row) {next : Row}
    (hnext : next.pairs.filter (recentAt now) = row.pairs.filter (recentAt now)) :
    Recorded recorded now next := { h with
  recent := h.recent.trans hnext.symm }

/-- One more join. -/
theorem concat (h : Recorded recorded now row) {next : Row} {nonce : Nonce}
    (hlength : (row.pairs.filter (recentAt now)).length < 4)
    (hnext : next.pairs = row.pairs.filter (recentAt now) ++ [(nonce, now)]) :
    Recorded (recorded ++ [(nonce, now)]) now next where
  past := forall_mem_concat h.past (Nat.le_refl now)
  recent := by
    rw [List.filter_append, h.recent, hnext, List.filter_append, filter_later (Nat.le_refl now)]
  windows := by
    intro start
    rw [List.countP_append, List.countP_singleton]
    by_cases hinside : start ≤ now ∧ now < start + retainMs
    · -- every other join of this minute is still counted by the row
      have hle : recorded.countP (fun entry => start ≤ entry.2 ∧ entry.2 < start + retainMs) ≤
          recorded.countP (recentAt now) := by
        refine List.countP_mono_left fun entry hentry hwindow => ?_
        have hbounds := of_decide_eq_true hwindow
        exact decide_eq_true (by omega)
      rw [List.countP_eq_length_filter (p := recentAt now), h.recent] at hle
      rw [if_pos (decide_eq_true hinside)]
      omega
    · rw [if_neg (fun htrue => hinside (of_decide_eq_true htrue)), Nat.add_zero]
      exact h.windows start

end Recorded

/-- The joins that a row counts beside those of an earlier one. -/
structure Counted (recorded : List (Nonce × Nat)) (now : Nat) (row next : Row)
    (fresh : List (Nonce × Nat)) : Prop where
  recorded : Recorded (recorded ++ fresh) now next
  times : ∀ entry ∈ fresh, entry.2 = now
  pairs : ∀ entry ∈ next.pairs, entry ∈ row.pairs ∨ entry ∈ fresh

namespace Counted

variable {recorded fresh : List (Nonce × Nat)} {now : Nat} {row next : Row}

/-- No join is counted. -/
theorem idle (h : Recorded recorded now next) (hpairs : next.pairs ⊆ row.pairs) :
    Counted recorded now row next [] where
  recorded := by
    rw [List.append_nil]
    exact h
  times := nofun
  pairs := fun entry hentry => .inl (hpairs hentry)

theorem trans (h : Counted recorded now row next fresh) {last : Row} {added : List (Nonce × Nat)}
    (hlast : Counted (recorded ++ fresh) now next last added) :
    Counted recorded now row last (fresh ++ added) where
  recorded := by
    rw [← List.append_assoc]
    exact hlast.recorded
  times := fun entry hentry => (List.mem_append.mp hentry).elim (h.times entry) (hlast.times entry)
  pairs := by
    intro entry hentry
    rcases hlast.pairs entry hentry with hold | hnew
    · exact (h.pairs entry hold).imp_right (List.mem_append_left added)
    · exact .inr (List.mem_append_right fresh hnew)

/-- A row that is forgotten counts nothing recent. -/
theorem collect (h : Recorded recorded now row) (hsound : row.Sound) (live : CallLease → Bool) :
    Counted recorded now row (row.collect live now) [] := by
  cases row with
  | none => exact .idle h (List.Subset.refl _)
  | some record =>
    rcases collect_cases live now record with hkept | ⟨hgone, hidle, _⟩
    · rw [hkept]
      exact .idle (h.congr rfl) (List.Subset.refl _)
    · rw [hgone]
      refine .idle (h.congr (Eq.symm ?_)) (List.nil_subset _)
      refine List.filter_eq_nil_iff.mpr fun entry hentry hrecent => ?_
      obtain ⟨seen, hseen, rfl⟩ := List.mem_map.mp hentry
      have hcreated := (hsound record rfl).created_le seen hseen
      have hyoung := of_decide_eq_true hrecent
      dsimp only at hyoung
      omega

theorem visit (h : Recorded recorded now row) (hsound : row.Sound)
    {credit : Except VoiceError Unit} {live : CallLease → Bool} {record : Record}
    (hvisit : row.visit credit live now = .ok record) :
    Counted recorded now row (some record) [] := by
  have hcollect := Counted.collect h hsound live
  rcases visit_cases hvisit with ⟨found, hfound, rfl⟩ | ⟨hnone, rfl⟩
  · rw [hfound] at hcollect
    exact hcollect.trans (.idle (hcollect.recorded.congr rfl) (List.Subset.refl _))
  · rw [hnone] at hcollect
    exact hcollect.trans (.idle (hcollect.recorded.congr rfl) (List.nil_subset _))

/-- An action counts at most one more join. -/
theorem apply {record : Record} (h : Recorded recorded now (some record)) (act : Act) :
    ∃ fresh, Counted recorded now (some record) (some (act.apply now record).2) fresh := by
  rcases pairs_apply act now record with hsame | hrecent | ⟨nonce, hlength, hnew⟩
  · exact ⟨[], .idle (h.congr (congrArg _ hsame)) (hsame ▸ List.Subset.refl _)⟩
  · refine ⟨[], .idle (h.congr ?_) ?_⟩
    · rw [hrecent, Recorded.filter_later (Nat.le_refl now)]
    · rw [hrecent]
      exact List.filter_sublist.subset
  · refine ⟨[(nonce, now)], h.concat hlength hnew, fun entry hentry => ?_, fun entry hentry => ?_⟩
    · rw [List.mem_singleton.mp hentry]
    · rw [hnew] at hentry
      rcases List.mem_append.mp hentry with hold | hlast
      · exact .inl (List.mem_filter.mp hold).1
      · exact .inr hlast

theorem chain {event : Event} {acts : List Act} (h : Recorded recorded event.now row)
    (hsound : row.Sound) (hchain : Chain event acts row next) :
    ∃ fresh, Counted recorded event.now row next fresh := by
  -- an action counts whether it is accepted or not
  have hact : ∀ {record : Record} (act : Act),
      (∃ fresh, Counted recorded event.now row (some record) fresh) →
      ∃ fresh, Counted recorded event.now row (some (act.apply event.now record).2) fresh := by
    intro record act ⟨fresh, hbefore⟩
    obtain ⟨added, hadded⟩ := Counted.apply hbefore.recorded act
    exact ⟨_, hbefore.trans hadded⟩
  have hcounted : next.Sound ∧ ∃ fresh, Counted recorded event.now row next fresh := by
    refine hchain.follow (P := fun _ next => next.Sound ∧
      ∃ fresh, Counted recorded event.now row next fresh)
      ⟨hsound, [], .idle h (List.Subset.refl _)⟩ (fun view hnext => ?_)
      (fun hvisit hnext => ?_) (fun hnow _ hnext => ⟨hnext.1.apply hnow _, hact _ hnext.2⟩)
      (fun hnow _ hnext => ⟨hnext.1.apply hnow _, hact _ hnext.2⟩)
    · obtain ⟨hsound, fresh, hbefore⟩ := hnext
      exact ⟨hsound.collect _ _, _, hbefore.trans (.collect hbefore.recorded hsound _)⟩
    · obtain ⟨hsound, fresh, hbefore⟩ := hnext
      exact ⟨hsound.visit hvisit, _, hbefore.trans (.visit hbefore.recorded hsound hvisit)⟩
  exact hcounted.2

end Counted

/-- The joins that a call counted. -/
def newJoins (row next : Row) : List (Nonce × Nat) :=
  next.pairs.filter fun entry => entry ∉ row.pairs

/-- What is counted is what the row shows. -/
theorem Counted.newJoins_eq {recorded fresh : List (Nonce × Nat)} {now : Nat} {row next : Row}
    (h : Counted recorded now row next fresh) (hbefore : Recorded recorded now row)
    (hsound : next.Sound) : newJoins row next = fresh := by
  have hrecent : ∀ entry ∈ fresh, recentAt now entry = true := by
    intro entry hentry
    unfold recentAt retainMs
    rw [h.times entry hentry]
    exact decide_eq_true (by omega)
  have hfresh : fresh.filter (recentAt now) = fresh := List.filter_eq_self.mpr hrecent
  have hpairs : next.pairs.filter (recentAt now) = row.pairs.filter (recentAt now) ++ fresh := by
    rw [← h.recorded.recent, List.filter_append, hbefore.recent, hfresh]
  -- a row counts no join twice
  have hnodup : next.pairs.Nodup := by
    cases next with
    | none => exact List.nodup_nil
    | some record =>
      refine List.Nodup.of_map Prod.fst ?_
      rw [Row.pairs, List.map_map]
      exact (hsound record rfl).joins_nodup
  have hdisjoint : ∀ entry ∈ fresh, entry ∉ row.pairs := by
    intro entry hentry hold
    have hsplit := hnodup.filter (recentAt now)
    rw [hpairs] at hsplit
    exact (List.nodup_append.mp hsplit).2.2 entry
      (List.mem_filter.mpr ⟨hold, hrecent entry hentry⟩) entry hentry rfl
  calc newJoins row next
      = (next.pairs.filter (recentAt now)).filter fun entry => entry ∉ row.pairs := by
        unfold newJoins
        rw [List.filter_filter]
        refine List.filter_congr fun entry hentry => ?_
        by_cases hold : entry ∈ row.pairs
        · simp [hold]
        · simp [hold, hrecent entry ((h.pairs entry hentry).resolve_left hold)]
    _ = fresh.filter fun entry => entry ∉ row.pairs := by
        rw [hpairs, List.filter_append, List.filter_eq_nil_iff.mpr, List.nil_append]
        intro entry hentry hnew
        exact of_decide_eq_true hnew (List.mem_filter.mp hentry).1
    _ = fresh := List.filter_eq_self.mpr fun entry hentry => decide_eq_true (hdisjoint entry hentry)

/-! ## What a refused packet leaves -/

/-- A row as it was, apart from bindings and pins that have expired. -/
structure Record.AsBefore (event : Event) (before after : Record) : Prop where
  touched : before.touched ≤ after.touched
  requester : after.requester = before.requester
  room : after.room = before.room
  setup : after.setup = before.setup
  joins : after.joins = before.joins
  dropped : ∀ binding ∈ after.bindings, ∃ old ∈ before.bindings,
    binding = { old with pins := binding.pins } ∧ binding.pins.Sublist old.pins
  kept : ∀ old ∈ before.bindings, old.Protected event → ∃ binding ∈ after.bindings,
    binding = { old with pins := binding.pins } ∧
      ∀ pin ∈ old.pins, event.Holds pin → pin ∈ binding.pins

namespace Record.AsBefore

variable {event : Event} {before after : Record}

theorem refl (event : Event) (record : Record) : record.AsBefore event record where
  touched := Nat.le_refl _
  requester := rfl
  room := rfl
  setup := rfl
  joins := rfl
  dropped := fun binding hmem => ⟨binding, hmem, rfl, List.Sublist.refl _⟩
  kept := fun binding hmem _ => ⟨binding, hmem, rfl, fun _ hpin _ => hpin⟩

theorem isProtected {old binding : Binding} (hold : old.Protected event)
    (hsame : binding = { old with pins := binding.pins })
    (hpins : ∀ pin ∈ old.pins, event.Holds pin → pin ∈ binding.pins) :
    binding.Protected event := by
  rcases hold with hdeadline | ⟨pin, hpin, hholds⟩
  · rw [hsame]
    exact .inl hdeadline
  · exact .inr ⟨pin, hpins pin hpin hholds, hholds⟩

theorem trans (h : before.AsBefore event after) {last : Record}
    (hlast : after.AsBefore event last) : before.AsBefore event last where
  touched := h.touched.trans hlast.touched
  requester := hlast.requester.trans h.requester
  room := hlast.room.trans h.room
  setup := hlast.setup.trans h.setup
  joins := hlast.joins.trans h.joins
  dropped := by
    intro binding hmem
    obtain ⟨middle, hmiddle, hsame, hsub⟩ := hlast.dropped binding hmem
    obtain ⟨old, hold, hfirst, hfirstSub⟩ := h.dropped middle hmiddle
    refine ⟨old, hold, ?_, hsub.trans hfirstSub⟩
    rw [hfirst] at hsame
    exact hsame
  kept := by
    intro old hold hprotected
    obtain ⟨middle, hmiddle, hfirst, hpins⟩ := h.kept old hold hprotected
    obtain ⟨binding, hmem, hsame, hagain⟩ :=
      hlast.kept middle hmiddle (isProtected hprotected hfirst hpins)
    refine ⟨binding, hmem, ?_, fun pin hpin hholds => hagain pin (hpins pin hpin hholds) hholds⟩
    rw [hfirst] at hsame
    exact hsame

theorem pruned (event : Event) (view : Nat) (record : Record) :
    record.AsBefore event (record.pruned (event.live view) event.now) where
  touched := Nat.le_refl _
  requester := rfl
  room := rfl
  setup := rfl
  joins := rfl
  dropped := by
    intro binding hmem
    obtain ⟨old, hold, rfl⟩ := List.mem_map.mp (List.mem_filter.mp hmem).1
    exact ⟨old, hold, rfl, List.filter_sublist⟩
  kept := by
    intro old hold hprotected
    refine ⟨_, hprotected.mem_pruned hold view, rfl, ?_⟩
    exact fun pin hpin hholds => List.mem_filter.mpr ⟨hpin, hholds view⟩

end Record.AsBefore

/-- A row that was idle for a minute and protects nothing. -/
structure Record.Expired (event : Event) (record : Record) : Prop where
  idle : retainMs ≤ event.now - record.touched
  unprotected : ∀ binding ∈ record.bindings, ¬ binding.Protected event

/-- What a call leaves of a row on which it does not act. -/
inductive Row.AsBefore (event : Event) : Row → Row → Prop where
  | kept {before after : Record} (h : before.AsBefore event after) :
      AsBefore event (some before) (some after)
  | absent : AsBefore event none none
  | opened : AsBefore event none (some (.fresh event.now))
  | forgotten {before : Record} (h : before.Expired event) : AsBefore event (some before) none
  | renewed {before : Record} (h : before.Expired event) :
      AsBefore event (some before) (some (.fresh event.now))

namespace Row.AsBefore

variable {event : Event} {row next : Row}

theorem refl (event : Event) (row : Row) : AsBefore event row row := by
  cases row with
  | none => exact .absent
  | some record => exact .kept (.refl event record)

theorem collect (h : AsBefore event row next) (view : Nat) :
    AsBefore event row (next.collect (event.live view) event.now) := by
  have hfresh : Row.collect (event.live view) event.now (some (.fresh event.now)) =
      some (.fresh event.now) := by
    rcases collect_cases (event.live view) event.now (.fresh event.now) with hkept | ⟨_, hidle, _⟩
    · rw [hkept]
      rfl
    · have hnone : event.now - event.now = 0 := Nat.sub_self _
      exact absurd (hidle.trans hnone.le) (by decide)
  cases h with
  | absent => exact .absent
  | opened =>
    rw [hfresh]
    exact .opened
  | forgotten h => exact .forgotten h
  | renewed h =>
    rw [hfresh]
    exact .renewed h
  | @kept before after h =>
    have hpruned := Record.AsBefore.pruned event view after
    rcases collect_cases (event.live view) event.now after with hkept | ⟨hgone, hidle, hempty⟩
    · rw [hkept]
      exact .kept (h.trans hpruned)
    · rw [hgone]
      refine .forgotten ⟨?_, fun binding hmem hprotected => ?_⟩
      · have htouched := h.touched
        omega
      · obtain ⟨kept, hmem, _⟩ := (h.trans hpruned).kept binding hmem hprotected
        exact List.ne_nil_of_mem hmem hempty

theorem of_pruned (h : Pruned event row next) : AsBefore event row next := by
  induction h with
  | refl => exact .refl event row
  | collect _ view ih => exact ih.collect view

theorem visit (event : Event) (row : Row) (credit : Except VoiceError Unit) (view : Nat) :
    AsBefore event row (row.visit credit (event.live view) event.now).toOption := by
  have hcollect := (AsBefore.refl event row).collect view
  have htouch : (Record.fresh event.now).touch event.now = .fresh event.now := by
    simp [Record.touch, Record.fresh]
  unfold Row.visit
  generalize row.collect (event.live view) event.now = collected at hcollect
  cases hcollect with
  | absent => cases credit with
    | error error => exact .absent
    | ok _ => exact .opened
  | forgotten h => cases credit with
    | error error => exact .forgotten h
    | ok _ => exact .renewed h
  | kept h =>
    refine .kept (h.trans ⟨Nat.le_max_left _ _, rfl, rfl, rfl, rfl, ?_, ?_⟩)
    · exact fun binding hmem => ⟨binding, hmem, rfl, List.Sublist.refl _⟩
    · exact fun binding hmem _ => ⟨binding, hmem, rfl, fun _ hpin _ => hpin⟩
  | opened =>
    dsimp only
    rw [htouch]
    exact .opened
  | renewed h =>
    dsimp only
    rw [htouch]
    exact .renewed h

end Row.AsBefore

/-- A packet that is refused acts on no row. -/
theorem OriginLimits.admitPacket_asBefore {limits : OriginLimits} {event : Event}
    {object : SignedObject} {wall : Nat} (hcall : event.call = .admitPacket object wall)
    {error : VoiceError} (herror : (limits.step event).1 = .error error) (member : DeviceId) :
    Row.AsBefore event limits.records[member]? (limits.step event).2.records[member]? := by
  unfold OriginLimits.step at herror ⊢
  rw [hcall] at herror ⊢
  by_cases hmember : object.issuer = member
  · rw [← hmember]
    dsimp only at herror ⊢
    rw [OriginLimits.admitPacket_refused herror]
    exact .visit event _ _ 0
  · exact .of_pruned (OriginLimits.admitPacket_others event _ limits object wall hmember)

/-! ## One call -/

/-- What is left of a binding, where a call may retire one of its pins. -/
structure Binding.Remains (event : Event) (member : DeviceId) (binding kept : Binding) : Prop where
  join : kept.join = binding.join
  keyRef : kept.keyRef = binding.keyRef
  deadline : binding.deadline ≤ kept.deadline
  renewal : binding.renewal ≤ kept.renewal
  pins : ∀ pin ∈ binding.pins, event.Holds pin →
    event.call ≠ .retirePair member binding.join binding.keyRef pin → pin ∈ kept.pins

namespace Move

variable {event : Event} {member : DeviceId} {acts : List Act} {row next : Row}
  (h : Move event member acts row next) (hsound : row.Sound)

include h hsound

theorem sound : next.Sound := by
  cases h with
  | retired hcall row =>
    intro record hrecord
    obtain ⟨old, hold, rfl⟩ := Option.map_eq_some_iff.mp hrecord
    exact (hsound old hold).retire _ _ _
  | chain h => exact (Followed.of_chain hsound h).sound

variable {keyRef : KeyRef} {nonce : Nonce}

theorem keys {other : KeyRef} {deadline : Nat} (hguards : row.Guards event nonce keyRef)
    (hact : .join nonce other deadline ∈ acts) : other = keyRef := by
  cases h with
  | retired hcall row => cases hact
  | chain h => exact (Followed.of_chain hsound h).keys nonce keyRef hguards other deadline hact

theorem marks {mark : Nat} (hguards : row.Guards event nonce keyRef)
    (hmarked : row.Marked nonce mark) :
    next.Marked nonce mark ∧
      ∀ key sequence, .renew nonce key sequence ∈ acts → mark ≤ sequence := by
  cases h with
  | retired hcall row =>
    refine ⟨?_, nofun⟩
    cases row with
    | none => exact hmarked
    | some record =>
      -- only pins change
      refine ⟨fun binding hmem hjoin => ?_, hmarked.joins⟩
      rcases mem_updateFirst hmem with hold | ⟨old, hold, rfl⟩
      · exact hmarked.bindings binding hold hjoin
      · exact hmarked.bindings old (List.mem_of_find?_eq_some hold) hjoin
  | chain h => exact (Followed.of_chain hsound h).marks nonce keyRef mark hguards hmarked

theorem marked {earlier : List Act} {sequence : Nat}
    (hacts : acts = earlier ++ [.renew nonce keyRef sequence]) : next.Marked nonce sequence := by
  cases h with
  | retired hcall row => exact absurd hacts.symm (by simp)
  | chain h => exact marked_of_chain hsound h hacts

/-- A protected binding stays, with every pin that is held and not retired. -/
theorem remains {binding : Binding} (hmem : binding ∈ row.bindings)
    (hprotected : binding.Protected event) :
    ∃ kept ∈ next.bindings, binding.Remains event member kept := by
  cases h with
  | chain h =>
    obtain ⟨kept, hkept, hsame⟩ :=
      (Followed.of_chain hsound h).retains.bindings binding hmem hprotected
    exact ⟨kept, hkept, hsame.join, hsame.keyRef, hsame.deadline, hsame.renewal,
      fun pin hpin hholds _ => hsame.pins pin hpin hholds⟩
  | @retired nonce keyRef lease hcall row =>
    cases row with
    | none => cases hmem
    | some record =>
      rcases exists_updateFirst (fun binding : Binding =>
        { binding with pins := binding.pins.filter fun pin => pin ≠ lease }) hmem with
        hkept | ⟨hfound, hchanged⟩
      · exact ⟨binding, hkept, rfl, rfl, Nat.le_refl _, Nat.le_refl _, fun _ hpin _ _ => hpin⟩
      · refine ⟨_, hchanged, rfl, rfl, Nat.le_refl _, Nat.le_refl _,
          fun pin hpin _ hcalled => List.mem_filter.mpr ⟨hpin, decide_eq_true ?_⟩⟩
        rintro rfl
        obtain ⟨_, hjoin, hkey⟩ := of_find?_decide hfound
        rw [hjoin, hkey] at hcalled
        exact hcalled hcall

/-- A young rate entry stays. -/
theorem young {seen : SeenJoin} (hmem : seen ∈ row.joins) (hyoung : seen.Young event) :
    ∃ kept ∈ next.joins, seen.Kept kept := by
  cases h with
  | retired hcall row =>
    cases row with
    | none => cases hmem
    | some record => exact ⟨seen, hmem, .refl seen⟩
  | chain h => exact (Followed.of_chain hsound h).retains.joins seen hmem hyoung

theorem binds {deadline : Nat} (hact : .join nonce keyRef deadline ∈ acts)
    (hdeadline : event.now < deadline) : next.Binds nonce keyRef deadline := by
  cases h with
  | retired hcall row => cases hact
  | chain h => exact (Followed.of_chain hsound h).binds nonce keyRef deadline hact hdeadline

/-- A join that nothing held is counted, with the key it is bound to. -/
theorem counts {deadline : Nat} (hact : .join nonce keyRef deadline ∈ acts)
    (hdeadline : event.now < deadline) (hfree : row.Free event nonce) :
    next.Counts nonce keyRef event.now := by
  obtain ⟨_, hbound⟩ := (h.binds hsound hact hdeadline).knows
  have hnext := h.sound hsound
  cases h with
  | retired hcall row => cases hact
  | chain h =>
    cases Entered.of_chain hsound hfree h with
    | unheld _ hacts => exact absurd hact (hacts keyRef deadline)
    | @counted key hcounts =>
      obtain ⟨_, hknows⟩ := hcounts.knows
      rw [(hknows.unique hnext hbound).1]
      exact hcounts

theorem counted {recorded : List (Nonce × Nat)} (hrecorded : Recorded recorded event.now row) :
    Recorded (recorded ++ newJoins row next) event.now next := by
  obtain ⟨fresh, hfresh⟩ : ∃ fresh, Counted recorded event.now row next fresh := by
    cases h with
    | @retired nonce keyRef lease hcall row =>
      have hpairs : Row.pairs (row.map (Record.retire nonce keyRef lease)) = row.pairs := by
        cases row <;> rfl
      exact ⟨[], .idle (hrecorded.congr (congrArg _ hpairs)) (hpairs ▸ List.Subset.refl _)⟩
    | chain h => exact Counted.chain hrecorded hsound h
  rw [hfresh.newJoins_eq hrecorded (h.sound hsound)]
  exact hfresh.recorded

end Move

/-! ## Runs -/

/-- The clock does not go back. -/
def Clocked (events : List Event) : Prop := (events.map Event.now).Pairwise (· ≤ ·)

/-- A renewal is the last that a call does to a row. -/
theorem Event.acts_of_renew {event : Event} {member : DeviceId} {nonce : Nonce} {keyRef : KeyRef}
    {sequence : Nat} (h : .renew nonce keyRef sequence ∈ event.acts member) :
    ∃ earlier, event.acts member = earlier ++ [.renew nonce keyRef sequence] := by
  unfold Event.acts at h ⊢
  cases hcall : event.call with
  | renewal subject other key number =>
    rw [hcall] at h
    dsimp only at h ⊢
    split at h
    · rw [if_pos ‹_›, List.mem_singleton.mp h]
      exact ⟨[], rfl⟩
    · cases h
  | admitPacket object wall =>
    rw [hcall] at h
    dsimp only [packetActs] at h ⊢
    split at h
    · rw [if_pos ‹_›]
      cases hbody : object.body with
      | announcement other key renewal =>
        rw [hbody] at h
        simp only [List.mem_cons, reduceCtorEq, false_or, List.not_mem_nil, or_false] at h
        rw [h]
        exact ⟨[_, _], rfl⟩
      | watchChallenge | other =>
        rw [hbody] at h
        simp at h
    · cases h
  | _ =>
    -- no other call renews
    rw [hcall] at h
    simp at h

/-- The join of an action. -/
def Act.joined : Act → Option Nonce
  | .join nonce _ _ => some nonce
  | _ => none

/-- A call joins at most once. -/
theorem Event.joined_le_one (event : Event) (member : DeviceId) :
    ((event.acts member).filterMap Act.joined).length ≤ 1 := by
  unfold Event.acts
  cases event.call with
  | admitPacket object wall =>
    dsimp only [packetActs]
    split
    · cases object.body <;> simp [Act.joined, List.filterMap_cons]
    · simp
  | _ =>
    dsimp only
    try split
    all_goals simp [Act.joined, List.filterMap_cons]

namespace OriginLimits

/-- The table that a call leaves. -/
def next (limits : OriginLimits) (event : Event) : OriginLimits := (limits.step event).2

/-- The table after a run. -/
def after (events : List Event) : OriginLimits := run next .new events

/-- What a call does to the row of a member, if it is accepted. -/
def accepted (member : DeviceId) (limits : OriginLimits) (event : Event) : List Act :=
  committed (limits.step event).1 (event.acts member)

/-- Everything that a run did to the row of a member, with its times. -/
def granted (member : DeviceId) (events : List Event) : List (Nat × Act) :=
  observed next (fun limits event => stamped event.now (limits.accepted member event)) .new events

/-- The joins of a member that a run counted, with their times. -/
def recordedJoins (member : DeviceId) (events : List Event) : List (Nonce × Nat) :=
  observed next
    (fun limits event => newJoins limits.records[member]? (limits.next event).records[member]?)
    .new events

open Classical in
/-- The joins of a member that a call accepted although nothing held them. -/
noncomputable def admitted (member : DeviceId) (limits : OriginLimits) (event : Event) :
    List (Nonce × Nat) :=
  (((limits.accepted member event).filterMap Act.joined).filter fun nonce =>
    Row.Free event nonce limits.records[member]?).map fun nonce => (nonce, event.now)

/-- The joins of a member that a run accepted although nothing held them, with their times. -/
noncomputable def admittedJoins (member : DeviceId) (events : List Event) : List (Nonce × Nat) :=
  observed next (admitted member) .new events

theorem after_concat (events : List Event) (event : Event) :
    after (events ++ [event]) = (after events).next event :=
  run_concat next .new events event

theorem row_new (member : DeviceId) : OriginLimits.new.records[member]? = none :=
  ExtTreeMap.getElem?_empty

/-- Rows stay sound along every run. -/
theorem row_sound (member : DeviceId) (events : List Event) :
    Row.Sound (after events).records[member]? := by
  refine run_induction (fun _ => True)
    (fun _ (limits : OriginLimits) => Row.Sound limits.records[member]?)
    (fun _ _ _ => trivial) ?_ (fun past event _ hsound => ?_) events trivial
  · rw [row_new]
    exact nofun
  · exact (step_row _ event member).sound hsound

/-- What a call accepts although nothing held it is counted. -/
theorem admitted_sublist {limits : OriginLimits} {member : DeviceId}
    (hsound : Row.Sound limits.records[member]?) (event : Event) :
    (limits.admitted member event).Sublist
      (newJoins limits.records[member]? (limits.next event).records[member]?) := by
  have hmem : ∀ entry ∈ limits.admitted member event,
      entry ∈ newJoins limits.records[member]? (limits.next event).records[member]? := by
    classical
    intro entry hentry
    obtain ⟨nonce, hnonce, rfl⟩ := List.mem_map.mp hentry
    obtain ⟨hjoined, hfree⟩ := List.mem_filter.mp hnonce
    obtain ⟨act, hact, hjoin⟩ := List.mem_filterMap.mp hjoined
    have hfree := of_decide_eq_true hfree
    cases act with
    | join other keyRef deadline =>
      cases hjoin
      obtain ⟨seen, hseen, hsame, _, hcreated⟩ :=
        (step_row limits event member).counts hsound hact (lt_of_committed hact) hfree
      refine List.mem_filter.mpr ⟨List.mem_map.mpr ⟨seen, hseen, ?_⟩, decide_eq_true ?_⟩
      · rw [hsame, hcreated]
      · intro hold
        obtain ⟨old, hmem, heq⟩ := List.mem_map.mp hold
        injection heq with hnonce htime
        refine hfree.joins old hmem hnonce ?_
        unfold SeenJoin.Young retainMs
        omega
    | requester | traffic | renew | protect => cases hjoin
  have hlength : (limits.admitted member event).length ≤ 1 := by
    unfold admitted
    rw [List.length_map]
    refine (List.length_filter_le _ _).trans ?_
    unfold accepted committed
    split
    · exact event.joined_le_one member
    · exact Nat.zero_le _
  generalize limits.admitted member event = joins at hmem hlength
  match joins with
  | [] => exact List.nil_sublist _
  | [entry] => exact List.singleton_sublist.mpr (hmem entry List.mem_cons_self)

theorem admittedJoins_sublist (member : DeviceId) (events : List Event) :
    (admittedJoins member events).Sublist (recordedJoins member events) :=
  observed_sublist (fun past event => admitted_sublist (row_sound member past) event) events

/-- What a member spends and joins is paced along every run. -/
theorem row_paced (member : DeviceId) (events : List Event) (hclock : Clocked events) :
    ∀ now, (∀ event ∈ events, event.now ≤ now) →
      Spending (granted member events) now (after events).records[member]? ∧
        Recorded (recordedJoins member events) now (after events).records[member]? := by
  refine run_induction Clocked (fun past (limits : OriginLimits) =>
    ∀ now, (∀ event ∈ past, event.now ≤ now) →
      Spending (granted member past) now limits.records[member]? ∧
      Recorded (recordedJoins member past) now limits.records[member]?)
    (fun past event hclocked => ?_) (fun now _ => ?_) (fun past event hclocked ih now hnow => ?_)
    events hclock
  · unfold Clocked at hclocked ⊢
    rw [List.map_append] at hclocked
    exact (List.pairwise_append.mp hclocked).1
  · rw [row_new]
    exact ⟨.nil now, .nil now⟩
  · have hpast : ∀ earlier ∈ past, earlier.now ≤ event.now := by
      intro earlier hearlier
      unfold Clocked at hclocked
      rw [List.map_append] at hclocked
      exact (List.pairwise_append.mp hclocked).2.2 _ (List.mem_map_of_mem hearlier) _
        List.mem_cons_self
    have hlater : event.now ≤ now := hnow event (List.mem_append_right _ List.mem_cons_self)
    have hmove := step_row (run next .new past) event member
    obtain ⟨hspending, hrecorded⟩ := ih event.now hpast
    refine ⟨?_, ?_⟩
    · unfold granted
      rw [observed_concat]
      exact (hspending.move hmove).later hlater
    · unfold recordedJoins
      rw [observed_concat]
      exact (hmove.counted (row_sound member past) hrecorded).later hlater

/-- While a join is guarded, its mark holds. -/
theorem marked_of_guarded (member : DeviceId) (nonce : Nonce) (mark : Nat)
    {events later : List Event}
    (hmarked : Row.Marked nonce mark (after events).records[member]?)
    (hguarded : Obeys next (fun limits event => ∃ keyRef,
      Row.Guards event nonce keyRef limits.records[member]?) (after events) later) :
    Row.Marked nonce mark (after (events ++ later)).records[member]? := by
  induction later generalizing events with
  | nil =>
    rw [List.append_nil]
    exact hmarked
  | cons event later ih =>
    obtain ⟨⟨keyRef, hguards⟩, hlater⟩ := hguarded
    have hnext := ((step_row (after events) event member).marks (row_sound member events) hguards
      hmarked).1
    rw [List.append_cons]
    refine ih ?_ ?_
    · rw [after_concat]
      exact hnext
    · rw [after_concat]
      exact hlater

/-- Charges and joins stay within their rates, also where rows are forgotten and opened again; an
accepted join is bound, and counted if nothing held it; a guarded join keeps its key and its
renewals do not go down; what is protected or young stays, within the caps; and a refused packet
takes nothing. -/
theorem origin_limits_hold (member : DeviceId) (events : List Event) (hclock : Clocked events) :
    (∀ (meter : Meter) (start width : Nat), ((meter.times (granted member events)).countP
      fun time => start ≤ time ∧ time ≤ start + width) ≤
        meter.burst + (meter.rate * width + 999) / 1000) ∧
    (∀ start, ((recordedJoins member events).countP
      fun entry => start ≤ entry.2 ∧ entry.2 < start + retainMs) ≤ 4) ∧
    (∀ start, ((admittedJoins member events).countP
      fun entry => start ≤ entry.2 ∧ entry.2 < start + retainMs) ≤ 4) ∧
    (∀ event nonce keyRef deadline,
      .join nonce keyRef deadline ∈ (after events).accepted member event →
      event.now < deadline ∧
      Row.Binds ((after events).next event).records[member]? nonce keyRef deadline ∧
      (Row.Free event nonce (after events).records[member]? →
        Row.Counts ((after events).next event).records[member]? nonce keyRef event.now)) ∧
    (∀ event, ∀ seen ∈ Row.joins (after events).records[member]?, seen.Young event →
      ∃ kept ∈ Row.joins ((after events).next event).records[member]?, seen.Kept kept) ∧
    (∀ record ∈ (after events).records[member]?, record.bindings.length ≤ maxBindings ∧
      ∀ binding ∈ record.bindings, binding.pins.length ≤ maxPins) ∧
    (∀ event nonce keyRef, Row.Guards event nonce keyRef (after events).records[member]? →
      ∀ other deadline, .join nonce other deadline ∈ (after events).accepted member event →
        other = keyRef) ∧
    (∀ first middle last nonce keyRef sequence,
      .renew nonce keyRef sequence ∈ (after events).accepted member first →
      Obeys next (fun limits event => ∃ keyRef,
        Row.Guards event nonce keyRef limits.records[member]?)
        (after (events ++ [first])) (middle ++ [last]) →
      ∀ other later, .renew nonce other later ∈
          (after (events ++ [first] ++ middle)).accepted member last → sequence ≤ later) ∧
    (∀ event, ∀ binding ∈ Row.bindings (after events).records[member]?, binding.Protected event →
      ∃ kept ∈ Row.bindings ((after events).next event).records[member]?,
        binding.Remains event member kept) ∧
    (∀ event object wall error, event.call = .admitPacket object wall →
      ((after events).step event).1 = .error error →
      Row.AsBefore event (after events).records[member]?
        ((after events).next event).records[member]?) := by
  have hsound := row_sound member events
  obtain ⟨now, hnow⟩ : ∃ now, ∀ event ∈ events, event.now ≤ now :=
    ⟨usizeMax, fun event _ => event.now_le⟩
  obtain ⟨hspending, hrecorded⟩ := row_paced member events hclock now hnow
  refine ⟨fun meter start width => ?_, hrecorded.windows, fun start => ?_,
    fun event nonce keyRef deadline hact => ?_, fun event seen hmem hyoung => ?_,
    fun record hrecord => ?_,
    fun event nonce keyRef hguards other deadline hact => ?_,
    fun first middle last nonce keyRef sequence hact hguarded other later hlater => ?_,
    fun event binding hmem hprotected => ?_, fun event object wall error hcall herror => ?_⟩
  · exact (hspending.paced meter).count_le meter.rate_mul_unit start width
  · exact ((admittedJoins_sublist member events).countP_le).trans (hrecorded.windows start)
  · have hdeadline := lt_of_committed hact
    have hmove := step_row (after events) event member
    exact ⟨hdeadline, hmove.binds hsound hact hdeadline, hmove.counts hsound hact hdeadline⟩
  · exact (step_row (after events) event member).young hsound hmem hyoung
  · exact ⟨(hsound record hrecord).bindings_le, (hsound record hrecord).pins_le⟩
  · exact (step_row (after events) event member).keys hsound hguards hact
  · -- the first renewal is a mark, and the guard carries it to the last
    have hmark : Row.Marked nonce sequence (after (events ++ [first])).records[member]? := by
      have hmove := step_row (after events) first member
      unfold accepted at hact
      have hacts := (committed_of_mem hact).2
      rw [hacts] at hact
      obtain ⟨earlier, hlast⟩ := Event.acts_of_renew hact
      rw [after_concat]
      exact hmove.marked hsound (hacts.trans hlast)
    rw [obeys_append] at hguarded
    obtain ⟨hmiddle, ⟨key, hguards⟩, _⟩ := hguarded
    have hheld := marked_of_guarded member nonce sequence hmark hmiddle
    have hafter : run next (after (events ++ [first])) middle =
        after (events ++ [first] ++ middle) := (run_append next .new _ middle).symm
    rw [hafter] at hguards
    exact ((step_row _ last member).marks (row_sound member _) hguards hheld).2 other later hlater
  · exact (step_row (after events) event member).remains hsound hmem hprotected
  · exact admitPacket_asBefore hcall herror member

/-- A join at five milliseconds. -/
def sampleJoin : Event where
  call := .join 0 7 1 20000
  now := 5
  now_le := by decide
  live := fun _ _ => true
  credit := fun _ => .ok ()

/-- The same join with another key, when only its rate entry is left. -/
def sampleRebind : Event where
  call := .join 0 7 2 50000
  now := 30000
  now_le := by decide
  live := fun _ _ => true
  credit := fun _ => .ok ()

/-- A join that was accepted is counted, and while it is it cannot be bound to another key. -/
theorem origin_limits_hold_sampleJoin :
    Clocked [sampleJoin] ∧ granted 0 [sampleJoin] = [(5, .join 7 1 20000)] ∧
      Row.Counts (after [sampleJoin]).records[(0 : DeviceId)]? 7 1 5 ∧
      Row.Guards sampleRebind 7 1 (after [sampleJoin]).records[(0 : DeviceId)]? ∧
      .join 7 2 50000 ∉ (after [sampleJoin]).accepted 0 sampleRebind := by
  have hclock : Clocked [sampleJoin] := List.pairwise_singleton _ _
  -- nothing held the join before
  have hfree : Row.Free sampleJoin 7 (after []).records[(0 : DeviceId)]? := by
    have hnone : (after []).records[(0 : DeviceId)]? = none := row_new 0
    rw [hnone]
    exact ⟨nofun, nofun⟩
  have haccepted : .join 7 1 20000 ∈ (after []).accepted 0 sampleJoin := by decide +kernel
  have hcounts : Row.Counts (after [sampleJoin]).records[(0 : DeviceId)]? 7 1 5 :=
    ((origin_limits_hold 0 [] .nil).2.2.2.1 sampleJoin 7 1 20000 haccepted).2.2 hfree
  have hguards : Row.Guards sampleRebind 7 1 (after [sampleJoin]).records[(0 : DeviceId)]? := by
    obtain ⟨seen, hmem, hjoin, hkey, hcreated⟩ := hcounts
    refine .inr ⟨seen, hmem, hjoin, hkey, ?_⟩
    unfold SeenJoin.Young
    rw [hcreated]
    decide
  refine ⟨hclock, by decide +kernel, hcounts, hguards, fun hact => ?_⟩
  have hkey := (origin_limits_hold 0 [sampleJoin] hclock).2.2.2.2.2.2.1 sampleRebind 7 1 hguards 2
    50000 hact
  exact absurd hkey (by decide)

end OriginLimits
end Mewtual.Voice
