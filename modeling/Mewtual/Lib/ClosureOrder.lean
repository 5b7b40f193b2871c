import Mewtual.Lib.Graph
import Mewtual.Lib.MapMoves

/-!
# Walking and ordering a dependency closure

A walk collects everything behind some heads and fails at a node the graph does not hold. The
collected nodes are then ordered: as long as some node has all its dependencies before it, the
smallest such node comes next. The order depends on nothing but the nodes and their dependencies.

Main results:

- Theorem {lit}`DepGraph.mem_walkAll`: the walk collects exactly the nodes behind its heads.
- Theorem {lit}`order_sound`: the order lists each node once, after its dependencies.
-/

namespace Mewtual

open Std

variable {α : Type} [Ord α] [TransOrd α] [LawfulEqOrd α] [DecidableEq α]

/-! ## The walk -/

/-- Pop the stack until it is empty. A node that is not held is an error. -/
def DepGraph.walkAll {α : Type} [Ord α] [TransOrd α] [LawfulEqOrd α] [DecidableEq α]
    (graph : DepGraph α) (stack : List α) (wanted : ExtTreeSet α) :
    Option (ExtTreeSet α) :=
  match stack with
  | [] => some wanted
  | node :: rest =>
    if _hseen : node ∈ wanted then graph.walkAll rest wanted
    else if _hheld : node ∈ graph.available then
      graph.walkAll (graph.push node rest) (wanted.insert node)
    else none
termination_by ((graph.available.filter fun node => node ∉ wanted).card, stack.length)
decreasing_by
  · exact Prod.Lex.right _ (by simp)
  · refine Prod.Lex.left _ _ (Finset.card_lt_card ?_)
    refine Finset.ssubset_iff_of_subset ?_ |>.mpr ⟨node, ?_, ?_⟩
    · intro other hother
      rw [Finset.mem_filter, mem_insert_or, not_or] at hother
      exact Finset.mem_filter.mpr ⟨hother.1, hother.2.2⟩
    · exact Finset.mem_filter.mpr ⟨_hheld, _hseen⟩
    · rw [Finset.mem_filter, mem_insert_or]
      exact fun hmem => hmem.2 (.inl rfl)

/-- A walk that succeeds visits what the tolerant walk visits, and only held nodes. -/
theorem DepGraph.mem_walkAll_iff {graph : DepGraph α} {stack : List α}
    {wanted result : ExtTreeSet α} {visited : Finset α}
    (hsame : ∀ node, node ∈ wanted ↔ node ∈ visited)
    (hheld : ∀ node ∈ wanted, node ∈ graph.available)
    (h : graph.walkAll stack wanted = some result) (node : α) :
    (node ∈ result ↔ node ∈ graph.closure stack visited) ∧
      (node ∈ result → node ∈ graph.available) := by
  induction stack, wanted using walkAll.induct graph generalizing visited with
  | case1 wanted =>
    rw [walkAll] at h
    cases h
    rw [closure]
    exact ⟨hsame node, hheld node⟩
  | case2 wanted head rest hseen ih =>
    rw [walkAll, dif_pos hseen] at h
    rw [closure, dif_neg fun hfresh => hfresh.2 ((hsame head).mp hseen)]
    exact ih hsame hheld h
  | case3 wanted head rest hseen havailable ih =>
    rw [walkAll, dif_neg hseen, dif_pos havailable] at h
    rw [closure, dif_pos ⟨havailable, mt (hsame head).mpr hseen⟩]
    refine ih (fun other => ?_) (fun other hother => ?_) h
    · rw [mem_insert_or, Finset.mem_insert, hsame]
    · rcases mem_insert_or.mp hother with rfl | hother
      · exact havailable
      · exact hheld other hother
  | case4 wanted head rest hseen havailable =>
    rw [walkAll, dif_neg hseen, dif_neg havailable] at h
    cases h

/-- The walk collects exactly the nodes behind its heads. -/
theorem DepGraph.mem_walkAll {graph : DepGraph α} {heads : List α} {result : ExtTreeSet α}
    (h : graph.walkAll heads ∅ = some result) (node : α) :
    node ∈ result ↔ ∃ head ∈ heads, graph.Behind head node := by
  have hsame : ∀ node : α, node ∈ (∅ : ExtTreeSet α) ↔ node ∈ (∅ : Finset α) := fun node =>
    ⟨fun hmem => absurd hmem ExtTreeSet.not_mem_empty, fun hmem =>
      absurd hmem (Finset.notMem_empty _)⟩
  have hheld : ∀ node : α, node ∈ (∅ : ExtTreeSet α) → node ∈ graph.available := fun node hmem =>
    absurd hmem ExtTreeSet.not_mem_empty
  rw [(mem_walkAll_iff hsame hheld h node).1, mem_closure]

/-- A finished walk holds its stack and is closed under dependencies. -/
theorem DepGraph.walkAll_closed {graph : DepGraph α} {stack : List α}
    {wanted result : ExtTreeSet α}
    (hpending : ∀ node ∈ wanted, ∀ next ∈ graph.deps node, next ∈ wanted ∨ next ∈ stack)
    (h : graph.walkAll stack wanted = some result) :
    (∀ node ∈ wanted, node ∈ result) ∧ (∀ node ∈ stack, node ∈ result) ∧
      ∀ node ∈ result, ∀ next ∈ graph.deps node, next ∈ result := by
  induction stack, wanted using walkAll.induct graph with
  | case1 wanted =>
    rw [walkAll] at h
    cases h
    refine ⟨fun node hnode => hnode, fun node hnode => absurd hnode List.not_mem_nil, ?_⟩
    intro node hnode next hnext
    exact (hpending node hnode next hnext).resolve_right List.not_mem_nil
  | case2 wanted head rest hseen ih =>
    rw [walkAll, dif_pos hseen] at h
    obtain ⟨hkept, hstack, hclosed⟩ := ih (fun node hnode next hnext => by
      rcases hpending node hnode next hnext with hmem | hmem
      · exact .inl hmem
      · rcases List.mem_cons.mp hmem with rfl | hmem
        · exact .inl hseen
        · exact .inr hmem) h
    exact ⟨hkept, List.forall_mem_cons.mpr ⟨hkept head hseen, hstack⟩, hclosed⟩
  | case3 wanted head rest hseen havailable ih =>
    rw [walkAll, dif_neg hseen, dif_pos havailable] at h
    obtain ⟨hkept, hstack, hclosed⟩ := ih (fun node hnode next hnext => by
      rw [mem_insert_or, mem_push]
      rcases mem_insert_or.mp hnode with rfl | hnode
      · exact .inr (.inl hnext)
      · rcases hpending node hnode next hnext with hmem | hmem
        · exact .inl (.inr hmem)
        · rcases List.mem_cons.mp hmem with rfl | hmem
          · exact .inl (.inl rfl)
          · exact .inr (.inr hmem)) h
    refine ⟨fun node hnode => hkept node (mem_insert_or.mpr (.inr hnode)), ?_, hclosed⟩
    exact List.forall_mem_cons.mpr ⟨hkept head (mem_insert_or.mpr (.inl rfl)),
      fun node hnode => hstack node (mem_push.mpr (.inr hnode))⟩
  | case4 wanted head rest hseen havailable =>
    rw [walkAll, dif_neg hseen, dif_neg havailable] at h
    cases h

/-- What a walk from heads collects is held, closed under dependencies, and holds the heads. -/
theorem DepGraph.walkAll_spec {graph : DepGraph α} {heads : List α} {result : ExtTreeSet α}
    (h : graph.walkAll heads ∅ = some result) :
    (∀ node ∈ result, node ∈ graph.available) ∧ (∀ node ∈ heads, node ∈ result) ∧
      ∀ node ∈ result, ∀ next ∈ graph.deps node, next ∈ result := by
  have hempty : ∀ node : α, node ∈ (∅ : ExtTreeSet α) → False := fun node hmem =>
    ExtTreeSet.not_mem_empty hmem
  obtain ⟨-, hheads, hclosed⟩ := walkAll_closed (fun node hnode => (hempty node hnode).elim) h
  refine ⟨fun node hnode => ?_, hheads, hclosed⟩
  obtain ⟨head, -, hbehind⟩ := (mem_walkAll h node).mp hnode
  clear hnode
  induction hbehind with
  | refl hheld => exact hheld
  | step _ _ _ ih => exact ih

/-- A walk inside a held and closed part of the graph succeeds. -/
theorem DepGraph.exists_walkAll {graph : DepGraph α} {inside : α → Prop} {stack : List α}
    (hstack : ∀ node ∈ stack, inside node)
    (hheld : ∀ node, inside node → node ∈ graph.available)
    (hclosed : ∀ node, inside node → ∀ next ∈ graph.deps node, inside next)
    (wanted : ExtTreeSet α) : ∃ result, graph.walkAll stack wanted = some result := by
  induction stack, wanted using walkAll.induct graph with
  | case1 wanted => exact ⟨wanted, by rw [walkAll]⟩
  | case2 wanted head rest hseen ih =>
    rw [walkAll, dif_pos hseen]
    exact ih (List.forall_mem_cons.mp hstack).2
  | case3 wanted head rest hseen havailable ih =>
    rw [walkAll, dif_neg hseen, dif_pos havailable]
    refine ih fun node hnode => ?_
    rcases mem_push.mp hnode with hnext | hrest
    · exact hclosed head (List.forall_mem_cons.mp hstack).1 node hnext
    · exact (List.forall_mem_cons.mp hstack).2 node hrest
  | case4 wanted head rest hseen havailable =>
    exact absurd (hheld head (List.forall_mem_cons.mp hstack).1) havailable

omit [Ord α] [TransOrd α] [LawfulEqOrd α] [DecidableEq α] in
/-- Graphs that agree on a closed part have the same nodes behind its members. -/
theorem DepGraph.Behind.of_agree {first second : DepGraph α} {inside : α → Prop}
    (hheld : ∀ node, inside node → node ∈ second.available)
    (hdeps : ∀ node, inside node → second.deps node = first.deps node)
    (hclosed : ∀ node, inside node → ∀ next ∈ first.deps node, inside next) {head node : α}
    (hhead : inside head) (h : first.Behind head node) : second.Behind head node := by
  induction h with
  | refl _ => exact .refl (hheld _ hhead)
  | step _ hnext _ ih =>
    refine .step (hheld _ hhead) ?_ (ih (hclosed _ hhead _ hnext))
    rw [hdeps _ hhead]
    exact hnext

/-! ## The order -/

/-- The nodes that wait for a node, once for each time they name it. -/
def dependents (selected : ExtTreeSet α) (deps : α → List α) (node : α) : List α :=
  selected.toList.flatMap fun other => List.replicate ((deps other).count node) other

/-- How many dependencies of a node are among the selected nodes. -/
def dependencyCount (selected : ExtTreeSet α) (deps : α → List α) (node : α) : Nat :=
  (deps node).countP fun dep => selected.contains dep

structure Progress (α : Type) [Ord α] where
  counts : ExtTreeMap α Nat
  ready : ExtTreeSet α

def Progress.start (selected : ExtTreeSet α) (deps : α → List α) : Progress α where
  counts := insertAll ∅ (selected.toList.map fun node => (node, dependencyCount selected deps node))
  ready := .ofList (selected.toList.filter fun node => dependencyCount selected deps node = 0)

/-- One dependency less. -/
def Progress.release (progress : Progress α) (node : α) : Option (Progress α) :=
  match progress.counts[node]? with
  | some (count + 1) =>
    some ⟨progress.counts.insert node count,
      if count = 0 then progress.ready.insert node else progress.ready⟩
  | _ => none

/-- Take the smallest ready node and release what waits for it. A node is taken at most once, so
that as many turns as there are nodes left are enough. -/
def order (selected : ExtTreeSet α) (deps : α → List α) :
    Nat → Progress α → ExtTreeSet α → Option (List α × ExtTreeSet α)
  | 0, progress, left => if progress.ready.isEmpty then some ([], left) else none
  | turns + 1, progress, left =>
    match progress.ready.toList.head? with
    | none => some ([], left)
    | some node =>
      if node ∉ left then none
      else
        match (dependents selected deps node).foldlM Progress.release
            { progress with ready := progress.ready.erase node } with
        | none => none
        | some progress =>
          (order selected deps turns progress (left.erase node)).map fun (rest, left) =>
            (node :: rest, left)

/-- The counters tell how many dependencies are not done, and what is ready waits for nothing. -/
structure Progress.Sound (selected : ExtTreeSet α) (deps : α → List α) (done : List α)
    (progress : Progress α) : Prop where
  counts : ∀ (node : α) (count : Nat), progress.counts[node]? = some count ↔
    node ∈ selected ∧ count = (deps node).countP fun dep => dep ∈ selected ∧ dep ∉ done
  ready : ∀ node ∈ progress.ready, progress.counts[node]? = some 0

theorem Progress.start_sound (selected : ExtTreeSet α) (deps : α → List α) :
    (start selected deps).Sound selected deps [] := by
  have hcounts : ∀ (node : α) (count : Nat), (start selected deps).counts[node]? = some count ↔
      node ∈ selected ∧ count = dependencyCount selected deps node := by
    intro node count
    have hmem : ∀ count : Nat, (node, count) ∈ selected.toList.map (fun node =>
        (node, dependencyCount selected deps node)) ↔
        node ∈ selected ∧ count = dependencyCount selected deps node := by
      intro count
      rw [List.mem_map]
      constructor
      · rintro ⟨other, hother, hsame⟩
        cases hsame
        exact ⟨ExtTreeSet.mem_toList.mp hother, rfl⟩
      · rintro ⟨hnode, rfl⟩
        exact ⟨node, ExtTreeSet.mem_toList.mpr hnode, rfl⟩
    rw [← hmem]
    refine getElem?_insertAll fun left right hleft hright => ?_
    rw [((hmem left).mp hleft).2, ((hmem right).mp hright).2]
  have hsame : ∀ node, dependencyCount selected deps node =
      (deps node).countP fun dep => dep ∈ selected ∧ dep ∉ ([] : List α) := by
    intro node
    unfold dependencyCount
    refine List.countP_congr fun dep _ => ?_
    simp [ExtTreeSet.contains_iff_mem]
  refine ⟨fun node count => ?_, fun node hready => ?_⟩
  · rw [hcounts, hsame]
  · obtain ⟨hmem, hzero⟩ := List.mem_filter.mp (mem_ofList.mp hready)
    rw [hcounts]
    exact ⟨ExtTreeSet.mem_toList.mp hmem, (of_decide_eq_true hzero).symm⟩

/-- What one release does. -/
theorem Progress.release_eq_some {progress after : Progress α} {node : α}
    (h : progress.release node = some after)
    (hready : ∀ other ∈ progress.ready, progress.counts[other]? = some 0) :
    (∀ (other : α) (count : Nat), after.counts[other]? = some count ↔
      progress.counts[other]? = some (count + if other = node then 1 else 0)) ∧
      ∀ other ∈ after.ready, after.counts[other]? = some 0 := by
  unfold release at h
  split at h
  · rename_i count hcount
    cases h
    have hcounts : ∀ other : α, (progress.counts.insert node count)[other]? =
        if node = other then some count else progress.counts[other]? := fun other =>
      getElem?_insert_self_or node other count
    refine ⟨fun other found => ?_, fun other hother => ?_⟩
    · rw [hcounts]
      by_cases hnode : node = other
      · subst hnode
        rw [if_pos rfl, if_pos rfl, hcount, Option.some.injEq, Option.some.injEq]
        omega
      · rw [if_neg hnode, if_neg (Ne.symm hnode), Nat.add_zero]
    · rw [hcounts]
      have hkept : other ∈ progress.ready → (if node = other then some count
          else progress.counts[other]?) = some 0 := by
        intro hmem
        have hzero := hready other hmem
        rw [if_neg, hzero]
        rintro rfl
        rw [hcount] at hzero
        cases hzero
      dsimp only at hother
      split at hother
      · rename_i hzero
        rcases mem_insert_or.mp hother with rfl | hmem
        · rw [if_pos rfl, hzero]
        · exact hkept hmem
      · exact hkept hother
  · cases h

theorem Progress.releaseAll {nodes : List α} {progress after : Progress α}
    (h : nodes.foldlM release progress = some after)
    (hready : ∀ other ∈ progress.ready, progress.counts[other]? = some 0) :
    (∀ (other : α) (count : Nat), after.counts[other]? = some count ↔
      progress.counts[other]? = some (count + nodes.count other)) ∧
      ∀ other ∈ after.ready, after.counts[other]? = some 0 := by
  induction nodes generalizing progress with
  | nil =>
    cases h
    exact ⟨fun other count => Iff.rfl, hready⟩
  | cons node nodes ih =>
    rw [List.foldlM_cons] at h
    obtain ⟨middle, hmiddle, h⟩ := Option.bind_eq_some_iff.mp h
    obtain ⟨hfirst, hready⟩ := release_eq_some hmiddle hready
    obtain ⟨hlater, hready⟩ := ih h hready
    refine ⟨fun other count => ?_, hready⟩
    have hcount : nodes.count other + (if other = node then 1 else 0) =
        (node :: nodes).count other := by
      rw [List.count_cons]
      by_cases hother : other = node
      · simp [hother]
      · simp [hother, Ne.symm hother]
    rw [hlater, hfirst, Nat.add_assoc, hcount]

theorem count_flatMap_replicate {nodes : List α} (hdistinct : nodes.Nodup) (times : α → Nat)
    (node : α) :
    (nodes.flatMap fun other => List.replicate (times other) other).count node =
      if node ∈ nodes then times node else 0 := by
  induction nodes with
  | nil => rfl
  | cons head nodes ih =>
    obtain ⟨hhead, hdistinct⟩ := List.nodup_cons.mp hdistinct
    rw [List.flatMap_cons, List.count_append, ih hdistinct, List.count_replicate]
    by_cases hnode : node = head
    · subst hnode
      simp [hhead]
    · simp [hnode, Ne.symm hnode]

variable {selected : ExtTreeSet α} {deps : α → List α}

theorem count_dependents {node other : α} (hother : other ∈ selected) :
    (dependents selected deps node).count other = (deps other).count node := by
  unfold dependents
  rw [count_flatMap_replicate (nodup_setToList selected), if_pos (ExtTreeSet.mem_toList.mpr hother)]

/-- One more node done takes its occurrences off what is waited for. -/
theorem countP_done {done : List α} {node : α} (hnode : node ∈ selected) (hfresh : node ∉ done)
    (deps : List α) :
    (deps.countP fun dep => dep ∈ selected ∧ dep ∉ done) =
      (deps.countP fun dep => dep ∈ selected ∧ dep ∉ node :: done) + deps.count node := by
  induction deps with
  | nil => rfl
  | cons dep deps ih =>
    rw [List.countP_cons, List.countP_cons, List.count_cons, ih]
    by_cases hdep : dep = node
    · subst hdep
      simp [hnode, hfresh]
      omega
    · simp [hdep]
      omega

/-- Taking a ready node keeps the counters sound. -/
theorem Progress.Sound.take {done : List α} {progress after : Progress α}
    (h : progress.Sound selected deps done) {node : α} (hnode : node ∈ selected)
    (hfresh : node ∉ done)
    (hrelease : (dependents selected deps node).foldlM release
      { progress with ready := progress.ready.erase node } = some after) :
    after.Sound selected deps (node :: done) := by
  obtain ⟨hcounts, hready⟩ := releaseAll hrelease fun other hother =>
    h.ready other (mem_erase_and.mp hother).2
  refine ⟨fun other count => ?_, hready⟩
  rw [hcounts]
  dsimp only
  rw [h.counts]
  refine and_congr_right fun hother => ?_
  rw [count_dependents hother, countP_done hnode hfresh]
  omega

/-- Each node that is left is listed once or stays left, and a listed node comes after all its
selected dependencies. -/
theorem order_spec {turns : Nat} {progress : Progress α} {done listed : List α}
    {left rest : ExtTreeSet α} (hsound : progress.Sound selected deps done)
    (hleft : ∀ node ∈ left, node ∈ selected ∧ node ∉ done)
    (h : order selected deps turns progress left = some (listed, rest)) :
    listed.Nodup ∧ (∀ node, node ∈ left ↔ node ∈ listed ∨ node ∈ rest) ∧
      ∀ before node after, listed = before ++ node :: after → ∀ dep ∈ deps node,
        dep ∈ selected → dep ∈ done ∨ dep ∈ before := by
  induction turns generalizing progress done left listed with
  | zero =>
    unfold order at h
    split at h
    · cases h
      refine ⟨List.nodup_nil, fun node => by simp, fun before node after hsplit => ?_⟩
      simp at hsplit
    · cases h
  | succ turns ih =>
    unfold order at h
    split at h
    · cases h
      refine ⟨List.nodup_nil, fun node => by simp, fun before node after hsplit => ?_⟩
      simp at hsplit
    rename_i node hmin
    split at h
    · cases h
    rename_i hnode
    have hnode : node ∈ left := not_not.mp hnode
    obtain ⟨hselected, hfresh⟩ := hleft node hnode
    split at h
    · cases h
    rename_i progress' hrelease
    obtain ⟨⟨later, last⟩, hlater, hsame⟩ := Option.map_eq_some_iff.mp h
    cases hsame
    have hleft' : ∀ other ∈ left.erase node, other ∈ selected ∧ other ∉ node :: done := by
      intro other hother
      obtain ⟨hne, hmem⟩ := mem_erase_and.mp hother
      obtain ⟨hother, hnotDone⟩ := hleft other hmem
      exact ⟨hother, List.not_mem_cons_of_ne_of_not_mem hne hnotDone⟩
    obtain ⟨hdistinct, hcover, hafter⟩ := ih (hsound.take hselected hfresh hrelease) hleft' hlater
    have hnotLater : node ∉ later := fun hmem =>
      (mem_erase_and.mp ((hcover node).mpr (.inl hmem))).1 rfl
    refine ⟨List.nodup_cons.mpr ⟨hnotLater, hdistinct⟩, fun other => ?_, ?_⟩
    · have herase := hcover other
      rw [mem_erase_and] at herase
      by_cases hother : other = node
      · subst hother
        exact ⟨fun _ => .inl List.mem_cons_self, fun _ => hnode⟩
      · rw [List.mem_cons, or_iff_right hother, ← herase]
        exact ⟨fun hmem => ⟨hother, hmem⟩, And.right⟩
    · intro before other after hsplit dep hdep hdepSelected
      rcases List.cons_eq_append_iff.mp hsplit with ⟨rfl, hrest⟩ | ⟨tail, rfl, hrest⟩
      · -- the node taken now waits for nothing
        cases hrest
        have hzero := hsound.ready node (ExtTreeSet.mem_toList.mp (List.mem_of_head? hmin))
        have hcount := ((hsound.counts node 0).mp hzero).2
        have hnone := List.countP_eq_zero.mp hcount.symm dep hdep
        by_contra hmissing
        refine hnone (decide_eq_true ⟨hdepSelected, fun hdone => hmissing (.inl hdone)⟩)
      · rcases hafter tail other after hrest dep hdep hdepSelected with hdone | hbefore
        · rcases List.mem_cons.mp hdone with rfl | hdone
          · exact .inr List.mem_cons_self
          · exact .inl hdone
        · exact .inr (List.mem_cons_of_mem node hbefore)

/-- An order with nothing left lists every selected node once, after its dependencies. -/
theorem order_sound {listed : List α}
    (h : order selected deps selected.size (.start selected deps) selected = some (listed, ∅)) :
    listed.Nodup ∧ (∀ node, node ∈ listed ↔ node ∈ selected) ∧
      ∀ before node after, listed = before ++ node :: after → ∀ dep ∈ deps node,
        dep ∈ selected → dep ∈ before := by
  obtain ⟨hdistinct, hcover, hafter⟩ := order_spec (Progress.start_sound selected deps)
    (fun node hnode => ⟨hnode, List.not_mem_nil⟩) h
  refine ⟨hdistinct, fun node => ?_, fun before node after hsplit dep hdep hselected => ?_⟩
  · rw [hcover, or_iff_left ExtTreeSet.not_mem_empty]
  · exact (hafter before node after hsplit dep hdep hselected).resolve_left List.not_mem_nil

/-! ## What the order depends on -/

theorem order_congr {deps others : α → List α} (h : ∀ node ∈ selected, deps node = others node)
    (turns : Nat) (progress : Progress α) (left : ExtTreeSet α) :
    order selected deps turns progress left = order selected others turns progress left := by
  have hdependents : dependents selected deps = dependents selected others := by
    funext node
    unfold dependents
    refine List.flatMap_congr fun other hother => ?_
    rw [h other (ExtTreeSet.mem_toList.mp hother)]
  induction turns generalizing progress left with
  | zero => rfl
  | succ turns ih =>
    unfold order
    rw [hdependents]
    simp only [ih]

omit [DecidableEq α] in
theorem Progress.start_congr {deps others : α → List α}
    (h : ∀ node ∈ selected, deps node = others node) :
    start selected deps = start selected others := by
  have hcount : ∀ node ∈ selected.toList,
      dependencyCount selected deps node = dependencyCount selected others node := by
    intro node hnode
    unfold dependencyCount
    rw [h node (ExtTreeSet.mem_toList.mp hnode)]
  unfold start
  congr 2
  · exact List.map_congr_left fun node hnode => by rw [hcount node hnode]
  · exact List.filter_congr fun node hnode => by rw [hcount node hnode]

end Mewtual
