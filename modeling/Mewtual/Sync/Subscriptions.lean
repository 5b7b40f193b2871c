import Mathlib.Data.Fintype.Powerset
import Mewtual.Lib.Run

/-!
# Subscriptions to routing topics

A node subscribes to the topics that its documents route over, one awaited transport command at a
time. An attempt may fail or be cancelled at any of them, with the command in effect or not, so one
pending topic stands for what is uncertain.

Main results:

- Theorem {lit}`Routing.subscriptions_converge`: between attempts nothing but the pending topic is
  uncertain, and an attempt that succeeds leaves exactly the desired topics.
-/

namespace Mewtual
namespace Sync

variable {Topic : Type} [DecidableEq Topic]

/-- What the transport is asked. -/
inductive Command where
  | subscribe
  | unsubscribe

/-- Both commands are idempotent. -/
def Command.apply : Command → Topic → Finset Topic → Finset Topic
  | .subscribe, topic, topics => insert topic topics
  | .unsubscribe, topic, topics => topics.erase topic

/-- An awaited command is done, or the attempt stops there, with the command in effect or not. -/
inductive Await where
  | done
  | stopped (effect : Bool)

/-- What the node keeps of its routing subscriptions, beside those that the transport really has. -/
structure Routing (Topic : Type) where
  subscribed : Finset Topic := ∅
  subs : Finset Topic := ∅
  pending : Option Topic := none
  needsResync : Bool := false

/-- An attempt: the topics desired by then, and how each of its commands ends. -/
structure Attempt (Topic : Type) where
  desired : Finset Topic
  cleanup : Await
  adding : Topic → Await
  removing : Topic → Await

namespace Routing

/-- Await a command and go on if it is done. The pending topic stays where the attempt stops. -/
def await (command : Command) (topic : Topic) (answer : Await)
    (next : Routing Topic → Bool × Routing Topic) (routing : Routing Topic) :
      Bool × Routing Topic :=
  let performed := { routing with subscribed := command.apply topic routing.subscribed }
  match answer with
  | .done => next { performed with pending := none }
  | .stopped effect => (false, if effect then performed else routing)

/-- Subscribe topics one after another. -/
def addAll (adding : Topic → Await) : List Topic → (Routing Topic → Bool × Routing Topic) →
    Routing Topic → Bool × Routing Topic
  | [], next, routing => next routing
  | topic :: topics, next, routing =>
    await .subscribe topic (adding topic)
      (fun routing => addAll adding topics next { routing with subs := insert topic routing.subs })
      { routing with pending := some topic }

/-- Unsubscribe topics one after another. -/
def removeAll (removing : Topic → Await) : List Topic → (Routing Topic → Bool × Routing Topic) →
    Routing Topic → Bool × Routing Topic
  | [], next, routing => next routing
  | topic :: topics, next, routing =>
    await .unsubscribe topic (removing topic) (removeAll removing topics next)
      { routing with subs := routing.subs.erase topic, pending := some topic }

/-- An attempt with no pending topic. The order in which a hash set lists its members is a
parameter. -/
def changeAll (order : Finset Topic → List Topic) (attempt : Attempt Topic)
    (routing : Routing Topic) :
    Bool × Routing Topic :=
  addAll attempt.adding (order (attempt.desired \ routing.subs)) (fun routing =>
    removeAll attempt.removing (order (routing.subs \ attempt.desired)) (fun routing =>
      (true, { routing with needsResync := false })) routing) routing

/-- Subscribe the topics that should be subscribed and unsubscribe the others. -/
def resyncSubscriptions (order : Finset Topic → List Topic) (attempt : Attempt Topic)
    (routing : Routing Topic) : Bool × Routing Topic :=
  let routing := { routing with needsResync := true }
  match routing.pending with
  | some topic => await .unsubscribe topic attempt.cleanup (changeAll order attempt) routing
  | none => changeAll order attempt routing

/-- Nothing but the pending topic is uncertain, and that one is not counted. -/
structure Tracked (routing : Routing Topic) : Prop where
  agree : ∀ topic, routing.pending ≠ some topic →
    (topic ∈ routing.subscribed ↔ topic ∈ routing.subs)
  apart : ∀ topic, routing.pending = some topic → topic ∉ routing.subs

/-- An attempt that stops leaves a tracked state, and one that succeeds leaves nothing uncertain. -/
def Meets (goal : Finset Topic) (result : Bool × Routing Topic) : Prop :=
  result.2.Tracked ∧ (result.1 = true → result.2.subscribed = goal ∧ result.2.subs = goal)

variable {routing : Routing Topic} {topic : Topic} {goal : Finset Topic} {topics : List Topic}
  {answers : Topic → Await} {next : Routing Topic → Bool × Routing Topic}

/-- A command on the pending topic leaves nothing to know of what was really subscribed. -/
theorem Tracked.apply_eq (h : routing.Tracked) (hpending : routing.pending = some topic)
    (command : Command) :
    command.apply topic routing.subscribed = command.apply topic routing.subs := by
  ext other
  by_cases hsame : other = topic
  · cases command <;> simp [Command.apply, hsame]
  · have hagree := h.agree other (by simpa [hpending] using Ne.symm hsame)
    cases command <;> simp [Command.apply, hsame, hagree]

/-- Awaiting a command on the pending topic. -/
theorem Tracked.await (h : routing.Tracked) (hpending : routing.pending = some topic)
    {command : Command} {answer : Await}
    (hnext : Meets goal (next { routing with
      subscribed := command.apply topic routing.subs, pending := none })) :
    Meets goal (routing.await command topic answer next) := by
  rw [← h.apply_eq hpending] at hnext
  cases answer with
  | done => exact hnext
  | stopped effect =>
    cases effect with
    | false => exact ⟨h, nofun⟩
    | true =>
      refine ⟨⟨fun other hother => ?_, h.apart⟩, nofun⟩
      have hne : other ≠ topic := fun hsame => hother (hsame ▸ hpending)
      refine Iff.trans ?_ (h.agree other hother)
      show other ∈ command.apply topic routing.subscribed ↔ _
      cases command <;> simp [Command.apply, hne]

/-- The topics to add are counted once each is subscribed. -/
theorem meets_addAll (hnodup : topics.Nodup) (hfresh : ∀ topic ∈ topics, topic ∉ routing.subs)
    (hsame : routing.subscribed = routing.subs)
    (hnext : ∀ after : Routing Topic, after.subscribed = after.subs →
      after.pending = routing.pending →
      after.subs = routing.subs ∪ topics.toFinset → Meets goal (next after))
    (hnone : routing.pending = none) : Meets goal (routing.addAll answers topics next) := by
  induction topics generalizing routing with
  | nil => exact hnext routing hsame rfl (by simp)
  | cons topic topics ih =>
    obtain ⟨hnew, hnodup⟩ := List.nodup_cons.mp hnodup
    have htracked : Tracked { routing with pending := some topic } :=
      ⟨fun other _ => by rw [hsame], by simpa using hfresh topic⟩
    refine htracked.await rfl (ih hnodup ?_ rfl ?_ rfl)
    · intro other hmem
      have hne : other ≠ topic := fun heq => hnew (heq ▸ hmem)
      simpa [hne] using hfresh other (List.mem_cons_of_mem _ hmem)
    · intro after hcounted hclear hsubs
      refine hnext after hcounted (hclear.trans hnone.symm) (hsubs.trans ?_)
      simp

/-- The topics to remove are not counted while each is unsubscribed. -/
theorem meets_removeAll (hsame : routing.subscribed = routing.subs)
    (hnext : ∀ after : Routing Topic, after.subscribed = after.subs →
      after.pending = routing.pending →
      after.subs = routing.subs \ topics.toFinset → Meets goal (next after))
    (hnone : routing.pending = none) : Meets goal (routing.removeAll answers topics next) := by
  induction topics generalizing routing with
  | nil => exact hnext routing hsame rfl (by simp)
  | cons topic topics ih =>
    have htracked : Tracked
        { routing with subs := routing.subs.erase topic, pending := some topic } := by
      refine ⟨fun other hother => ?_, by simp⟩
      have hne : other ≠ topic := fun heq => hother (congrArg some heq.symm)
      simp [hsame, hne]
    refine htracked.await rfl (ih (by simp [Command.apply]) ?_ rfl)
    intro after hcounted hclear hsubs
    refine hnext after hcounted (hclear.trans hnone.symm) (hsubs.trans ?_)
    ext other
    simp
    tauto

section Attempts
variable {order : Finset Topic → List Topic}
  (horder : ∀ set, (order set).Nodup ∧ (order set).toFinset = set) (attempt : Attempt Topic)
include horder

theorem meets_changeAll (hsame : routing.subscribed = routing.subs)
    (hnone : routing.pending = none) :
    Meets attempt.desired (routing.changeAll order attempt) := by
  refine meets_addAll (horder _).1 (fun topic hmem => ?_) hsame
    (fun added hadded hclear hsubs => ?_)
    hnone
  · rw [← List.mem_toFinset, (horder _).2] at hmem
    exact (Finset.mem_sdiff.mp hmem).2
  · refine meets_removeAll hadded (fun final hfinal hlast hleft => ?_) (hclear.trans hnone)
    have hgoal : final.subs = attempt.desired := by
      rw [hleft, hsubs, (horder _).2, (horder _).2]
      ext topic
      simp
    refine ⟨⟨fun topic _ => by rw [hfinal], ?_⟩, fun _ => ⟨hfinal.trans hgoal, hgoal⟩⟩
    simp [hlast, hclear, hnone]

/-- One attempt from a tracked state. -/
theorem Tracked.resync (h : routing.Tracked) :
    Meets attempt.desired (routing.resyncSubscriptions order attempt) := by
  have hagain : Tracked { routing with needsResync := true } := ⟨h.agree, h.apart⟩
  unfold resyncSubscriptions
  dsimp only
  split
  · rename_i topic hpending
    refine hagain.await hpending (meets_changeAll horder attempt ?_ rfl)
    exact Finset.erase_eq_of_notMem (h.apart topic hpending)
  · rename_i hnone
    refine meets_changeAll horder attempt ?_ hnone
    ext topic
    exact h.agree topic (by simp [hnone])

end Attempts

/-- Between attempts everything in {lit}`routing_subs` is subscribed and everything subscribed is
there or pending. After an attempt that succeeds the transport, the node and the desired topics
agree. -/
theorem subscriptions_converge (order : Finset Topic → List Topic)
    (horder : ∀ set, (order set).Nodup ∧ (order set).toFinset = set)
    (attempts : List (Attempt Topic)) :
    let routing := run (fun routing attempt => (resyncSubscriptions order attempt routing).2) {}
      attempts
    routing.subs ⊆ routing.subscribed ∧
      (∀ topic ∈ routing.subscribed, topic ∈ routing.subs ∨ routing.pending = some topic) ∧
      ∀ attempt, (resyncSubscriptions order attempt routing).1 = true →
        (resyncSubscriptions order attempt routing).2.subscribed = attempt.desired ∧
          (resyncSubscriptions order attempt routing).2.subs = attempt.desired := by
  intro routing
  have htracked : routing.Tracked := by
    refine run_induction (fun _ => True) (fun _ routing => Tracked routing) (fun _ _ _ => trivial)
      ⟨fun _ _ => Iff.rfl, nofun⟩ ?_ attempts trivial
    exact fun past attempt _ h => (h.resync horder attempt).1
  refine ⟨fun topic hmem => ?_, fun topic hmem => ?_, fun attempt => ?_⟩
  · exact (htracked.agree topic fun hpending => htracked.apart topic hpending hmem).mpr hmem
  · by_cases hpending : routing.pending = some topic
    · exact .inr hpending
    · exact .inl ((htracked.agree topic hpending).mp hmem)
  · exact (htracked.resync horder attempt).2

/-- A removal is cancelled with its command in effect, and the next attempt wants the topic
again. -/
theorem subscriptions_converge_rewatched :
    let order := fun set : Finset Bool => [false, true].filter (· ∈ set)
    let attempts : List (Attempt Bool) := [⟨{false, true}, .done, fun _ => .done, fun _ => .done⟩,
      ⟨{false}, .done, fun _ => .done, fun _ => .stopped true⟩]
    let again : Attempt Bool := ⟨{false, true}, .done, fun _ => .done, fun _ => .done⟩
    let routing := run (fun routing attempt => (resyncSubscriptions order attempt routing).2) {}
      attempts
    routing.pending = some true ∧
      (resyncSubscriptions order again routing).2.subscribed = {false, true} := by
  intro order attempts again routing
  refine ⟨by decide, ((subscriptions_converge order (by decide) attempts).2.2 again ?_).1⟩
  decide

end Routing
end Sync
end Mewtual
