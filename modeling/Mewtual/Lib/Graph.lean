import Mathlib.Data.Finset.Card
import Mathlib.Data.Prod.Lex

/-!
# Walks over a dependency graph

A graph holds finitely many nodes and the dependencies of each. A dependency may name a node
the graph does not hold; such a node leads nowhere. The nodes at or behind a frontier are
found by popping a stack.

Main results:

- Theorem {lit}`DepGraph.mem_closure`: the walk finds exactly the nodes behind its frontier.
- Theorem {lit}`DepGraph.Behind.mono`: a growing graph keeps every dependency.
-/

namespace Mewtual

/-- Finitely many nodes with their dependencies. -/
structure DepGraph (α : Type) where
  available : Finset α
  deps : α → List α

namespace DepGraph

variable {α : Type}

/-- The node is held and is the head itself or one of its dependencies, at any depth. -/
inductive Behind (graph : DepGraph α) : α → α → Prop where
  | refl {head : α} (hhead : head ∈ graph.available) : Behind graph head head
  | step {head next node : α} (hhead : head ∈ graph.available) (hnext : next ∈ graph.deps head)
      (hbehind : Behind graph next node) : Behind graph head node

theorem Behind.trans {graph : DepGraph α} {head middle node : α}
    (hfirst : graph.Behind head middle) (hsecond : graph.Behind middle node) :
    graph.Behind head node := by
  induction hfirst with
  | refl => exact hsecond
  | step hhead hnext _ ih => exact .step hhead hnext (ih hsecond)

/-- The larger graph holds every node of the smaller with the same dependencies. -/
structure Extends (small large : DepGraph α) : Prop where
  available : small.available ⊆ large.available
  deps : ∀ node ∈ small.available, large.deps node = small.deps node

theorem Extends.refl (graph : DepGraph α) : graph.Extends graph :=
  ⟨Finset.Subset.refl _, fun _ _ => rfl⟩

theorem Extends.trans {small middle large : DepGraph α} (hfirst : small.Extends middle)
    (hsecond : middle.Extends large) : small.Extends large := by
  refine ⟨hfirst.available.trans hsecond.available, ?_⟩
  intro node hnode
  rw [hsecond.deps node (hfirst.available hnode), hfirst.deps node hnode]

/-- A growing graph keeps every dependency. -/
theorem Behind.mono {small large : DepGraph α} (hextends : small.Extends large)
    {head node : α} (h : small.Behind head node) : large.Behind head node := by
  induction h with
  | refl hhead => exact .refl (hextends.available hhead)
  | step hhead hnext _ ih =>
    refine .step (hextends.available hhead) ?_ ih
    rw [hextends.deps _ hhead]
    exact hnext

/-! ## The walk -/

section Walk

variable [DecidableEq α] {graph : DepGraph α}

/-- The dependencies of a node pushed in order, so that the last one is on top. -/
def push (graph : DepGraph α) (node : α) (stack : List α) : List α :=
  (graph.deps node).reverse ++ stack

omit [DecidableEq α] in
theorem mem_push {node other : α} {stack : List α} :
    other ∈ graph.push node stack ↔ other ∈ graph.deps node ∨ other ∈ stack := by
  simp [push]

/-- Pop the stack, skipping nodes that are not held or were visited before. -/
def closure (graph : DepGraph α) (stack : List α) (visited : Finset α) : Finset α :=
  match stack with
  | [] => visited
  | node :: rest =>
    if _hheld : node ∈ graph.available ∧ node ∉ visited then
      graph.closure (graph.push node rest) (insert node visited)
    else graph.closure rest visited
termination_by ((graph.available \ visited).card, stack.length)
decreasing_by
  · refine Prod.Lex.left _ _ (Finset.card_lt_card ?_)
    refine Finset.ssubset_iff_of_subset ?_ |>.mpr ⟨node, ?_, ?_⟩
    · exact Finset.sdiff_subset_sdiff (Finset.Subset.refl _) (Finset.subset_insert _ _)
    · exact Finset.mem_sdiff.mpr _hheld
    · simp
  · exact Prod.Lex.right _ (by simp)

/-- What was visited stays visited. -/
theorem subset_closure (graph : DepGraph α) (stack : List α) (visited : Finset α) :
    visited ⊆ graph.closure stack visited := by
  induction stack, visited using closure.induct graph with
  | case1 visited => rw [closure]
  | case2 visited node rest hheld ih =>
    rw [closure, dif_pos hheld]
    exact (Finset.subset_insert _ _).trans ih
  | case3 visited node rest hheld ih =>
    rw [closure, dif_neg hheld]
    exact ih

/-- Every node the walk finds is behind its stack. -/
theorem behind_of_mem_closure {stack : List α} {visited : Finset α} {node : α}
    (h : node ∈ graph.closure stack visited) :
    node ∈ visited ∨ ∃ head ∈ stack, graph.Behind head node := by
  induction stack, visited using closure.induct graph with
  | case1 visited =>
    rw [closure] at h
    exact .inl h
  | case2 visited head rest hheld ih =>
    rw [closure, dif_pos hheld] at h
    rcases ih h with hvisited | ⟨next, hnext, hbehind⟩
    · rcases Finset.mem_insert.mp hvisited with rfl | hvisited
      · exact .inr ⟨node, List.mem_cons_self, .refl hheld.1⟩
      · exact .inl hvisited
    · rcases mem_push.mp hnext with hdep | hrest
      · exact .inr ⟨head, List.mem_cons_self, .step hheld.1 hdep hbehind⟩
      · exact .inr ⟨next, List.mem_cons_of_mem _ hrest, hbehind⟩
  | case3 visited head rest hheld ih =>
    rw [closure, dif_neg hheld] at h
    rcases ih h with hvisited | ⟨next, hnext, hbehind⟩
    · exact .inl hvisited
    · exact .inr ⟨next, List.mem_cons_of_mem _ hnext, hbehind⟩

/-- Visited nodes have their held dependencies visited or on the stack. -/
def Pending (graph : DepGraph α) (stack : List α) (visited : Finset α) : Prop :=
  ∀ node ∈ visited, ∀ next ∈ graph.deps node, next ∈ graph.available →
    next ∈ visited ∨ next ∈ stack

/-- The finished walk is closed under held dependencies and holds its stack. -/
theorem closed_closure {stack : List α} {visited : Finset α} (h : graph.Pending stack visited) :
    graph.Pending [] (graph.closure stack visited) ∧
      ∀ head ∈ stack, head ∈ graph.available → head ∈ graph.closure stack visited := by
  induction stack, visited using closure.induct graph with
  | case1 visited =>
    rw [closure]
    exact ⟨h, fun head hmem => absurd hmem List.not_mem_nil⟩
  | case2 visited node rest hheld ih =>
    rw [closure, dif_pos hheld]
    have hpending : graph.Pending (graph.push node rest) (insert node visited) := by
      intro inner hinner next hnext havailable
      rcases Finset.mem_insert.mp hinner with rfl | hvisited
      · exact .inr (mem_push.mpr (.inl hnext))
      · rcases h inner hvisited next hnext havailable with hdone | hstack
        · exact .inl (Finset.mem_insert_of_mem hdone)
        · rcases List.mem_cons.mp hstack with rfl | hrest
          · exact .inl (Finset.mem_insert_self _ _)
          · exact .inr (mem_push.mpr (.inr hrest))
    rcases ih hpending with ⟨hclosed, hstack⟩
    refine ⟨hclosed, ?_⟩
    intro head hmem havailable
    rcases List.mem_cons.mp hmem with rfl | hrest
    · exact graph.subset_closure _ _ (Finset.mem_insert_self _ _)
    · exact hstack head (mem_push.mpr (.inr hrest)) havailable
  | case3 visited node rest hheld ih =>
    rw [closure, dif_neg hheld]
    have hdone : node ∈ graph.available → node ∈ visited := by
      intro havailable
      by_contra hfresh
      exact hheld ⟨havailable, hfresh⟩
    have hpending : graph.Pending rest visited := by
      intro inner hinner next hnext havailable
      rcases h inner hinner next hnext havailable with hvisited | hstack
      · exact .inl hvisited
      · rcases List.mem_cons.mp hstack with rfl | hrest
        · exact .inl (hdone havailable)
        · exact .inr hrest
    rcases ih hpending with ⟨hclosed, hstack⟩
    refine ⟨hclosed, ?_⟩
    intro head hmem havailable
    rcases List.mem_cons.mp hmem with rfl | hrest
    · exact graph.subset_closure _ _ (hdone havailable)
    · exact hstack head hrest havailable

/-- The walk finds exactly the nodes behind its frontier. -/
theorem mem_closure {heads : List α} {node : α} :
    node ∈ graph.closure heads ∅ ↔ ∃ head ∈ heads, graph.Behind head node := by
  constructor
  · intro h
    rcases behind_of_mem_closure h with hempty | hbehind
    · exact absurd hempty (Finset.notMem_empty node)
    · exact hbehind
  · rintro ⟨head, hhead, hbehind⟩
    have hstart : graph.Pending heads ∅ := fun inner hinner =>
      absurd hinner (Finset.notMem_empty inner)
    rcases closed_closure hstart with ⟨hclosed, hstack⟩
    have hinside : head ∈ graph.available → head ∈ graph.closure heads ∅ :=
      hstack head hhead
    clear hhead hstack
    induction hbehind with
    | refl havailable => exact hinside havailable
    | @step head next node havailable hnext hbehind ih =>
      refine ih fun hheld => ?_
      rcases hclosed head (hinside havailable) next hnext hheld with hmem | hmem
      · exact hmem
      · exact absurd hmem List.not_mem_nil

end Walk

end DepGraph

end Mewtual
