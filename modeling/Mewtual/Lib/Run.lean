import Mathlib.Data.List.Induction

/-!
# Runs of a step function

A run folds a step function over a list of events. The rules here carry an invariant along
every run. The invariant may mention the events so far, and the run may be restricted by a
condition on its events that every shorter run inherits.

Main results:

- Theorem {lit}`run_induction`: an invariant of one step holds along every run.
- Theorem {lit}`Obeys.run_induction`: an invariant kept by every allowed step holds along every
  run whose events are allowed in the states they meet.
-/

namespace Mewtual

variable {σ ε : Type}

/-- What holds of a history and of one more event holds of the longer history. -/
theorem forall_mem_concat {P : ε → Prop} {past : List ε} {event : ε}
    (hpast : ∀ earlier ∈ past, P earlier) (hevent : P event) :
    ∀ earlier ∈ past ++ [event], P earlier := by
  simpa [or_imp, forall_and] using ⟨hpast, hevent⟩

theorem pairwise_concat {R : ε → ε → Prop} {past : List ε} {event : ε} (hpast : past.Pairwise R)
    (hevent : ∀ earlier ∈ past, R earlier event) : (past ++ [event]).Pairwise R := by
  simpa [List.pairwise_append] using ⟨hpast, hevent⟩

/-- The state after a list of events. -/
def run (step : σ → ε → σ) (state : σ) (events : List ε) : σ := events.foldl step state

@[simp] theorem run_nil (step : σ → ε → σ) (state : σ) : run step state [] = state := rfl

theorem run_concat (step : σ → ε → σ) (state : σ) (events : List ε) (event : ε) :
    run step state (events ++ [event]) = step (run step state events) event := by
  simp [run]

theorem run_append (step : σ → ε → σ) (state : σ) (past later : List ε) :
    run step state (past ++ later) = run step (run step state past) later := by
  simp [run]

/-- An invariant that starts true and survives one step holds along every admissible run. -/
theorem run_induction {step : σ → ε → σ} {state : σ} (Admissible : List ε → Prop)
    (Inv : List ε → σ → Prop)
    (hshorter : ∀ past event, Admissible (past ++ [event]) → Admissible past)
    (hinit : Inv [] state)
    (hstep : ∀ past event, Admissible (past ++ [event]) → Inv past (run step state past) →
      Inv (past ++ [event]) (step (run step state past) event))
    (events : List ε) (hadmissible : Admissible events) :
    Inv events (run step state events) := by
  induction events using List.reverseRecOn with
  | nil => exact hinit
  | append_singleton past event ih =>
    rw [run_concat]
    exact hstep past event hadmissible (ih (hshorter past event hadmissible))

/-- What the steps of a run show, in their order. -/
def observed {β : Type} (step : σ → ε → σ) (observe : σ → ε → List β) : σ → List ε → List β
  | _, [] => []
  | state, event :: later => observe state event ++ observed step observe (step state event) later

theorem observed_concat {β : Type} (step : σ → ε → σ) (observe : σ → ε → List β) (state : σ)
    (events : List ε) (event : ε) :
    observed step observe state (events ++ [event]) =
      observed step observe state events ++ observe (run step state events) event := by
  induction events generalizing state with
  | nil => simp [observed]
  | cons first later ih => simp [observed, run, ih]

/-- A run shows less if each of its steps does. -/
theorem observed_sublist {β : Type} {step : σ → ε → σ} {few many : σ → ε → List β} {state : σ}
    (h : ∀ past event, (few (run step state past) event).Sublist
      (many (run step state past) event)) (events : List ε) :
    (observed step few state events).Sublist (observed step many state events) := by
  induction events using List.reverseRecOn with
  | nil => exact List.Sublist.refl _
  | append_singleton past event ih =>
    rw [observed_concat, observed_concat]
    exact ih.append (h past event)

/-! ## Runs under a condition on each step -/

variable {step : σ → ε → σ} {allowed : σ → ε → Prop} {state : σ}

/-- Every event of the run is allowed in the state it meets. -/
def Obeys (step : σ → ε → σ) (allowed : σ → ε → Prop) (state : σ) : List ε → Prop
  | [] => True
  | event :: later => allowed state event ∧ Obeys step allowed (step state event) later

theorem obeys_append (past later : List ε) :
    Obeys step allowed state (past ++ later)
      ↔ Obeys step allowed state past ∧ Obeys step allowed (run step state past) later := by
  induction past generalizing state with
  | nil => simp [Obeys]
  | cons event past ih =>
    simp only [List.cons_append, Obeys, ih, and_assoc]
    exact Iff.rfl

theorem Obeys.run_induction (Inv : σ → Prop) (hinit : Inv state)
    (hstep : ∀ state event, Inv state → allowed state event → Inv (step state event))
    {events : List ε} (hobeys : Obeys step allowed state events) :
    Inv (run step state events) := by
  induction events generalizing state with
  | nil => exact hinit
  | cons event later ih =>
    obtain ⟨hallowed, hlater⟩ := hobeys
    exact ih (hstep state event hinit hallowed) hlater

end Mewtual
