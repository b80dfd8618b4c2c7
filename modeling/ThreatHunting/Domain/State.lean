import Mathlib

/-!
# ThreatHunting.Domain.State

The hunt workflow state machine of `domain/state.py`: the states and the table of
transitions. `Edge` is the table as a relation; the rest of the module is what the
table says about terminal states.
-/

namespace ThreatHunting

/-- `HuntState`. -/
inductive HuntState
  | created | discovering | plan_draft | awaiting_plan_review | approved | queued | running
  | paused | synthesizing | report_draft | finalized | cancelled | failed
  deriving DecidableEq, Repr

namespace HuntState

/-- `TERMINAL_STATES`. -/
def terminalStates : List HuntState := [finalized, cancelled, failed]

/-- `_EXPLICIT_TRANSITIONS`. -/
def explicitTransitions : HuntState → List HuntState
  | created => [discovering]
  | discovering => [plan_draft]
  | plan_draft => [awaiting_plan_review]
  | awaiting_plan_review => [approved, plan_draft]
  | approved => [queued, plan_draft]
  | queued => [plan_draft, running, synthesizing]
  | running => [synthesizing, paused]
  | paused => [queued]
  | synthesizing => [report_draft, paused]
  | report_draft => [finalized]
  | finalized | cancelled | failed => []

/-- `ALLOWED_TRANSITIONS`: the explicit ones, cancellation of every state that is not
terminal, and failure of every such state but `created`. -/
def allowedTransitions (s : HuntState) : List HuntState :=
  explicitTransitions s ++ (if s ∈ terminalStates then [] else [cancelled])
    ++ (if s ∈ created :: terminalStates then [] else [failed])

/-- `can_transition`: repeated cancellation is idempotent. -/
def can_transition (current target : HuntState) : Bool :=
  (current == cancelled && target == cancelled) || (allowedTransitions current).contains target

/-- A persisted change of state the workflow allows: none, or an edge of the table. -/
def Edge (s s' : HuntState) : Prop := s' = s ∨ s' ∈ allowedTransitions s

instance (s s' : HuntState) : Decidable (Edge s s') := by unfold Edge; infer_instance

theorem allowedTransitions_of_terminal {s : HuntState} (h : s ∈ terminalStates) :
    allowedTransitions s = [] := by
  cases s <;> simp_all [terminalStates, allowedTransitions, explicitTransitions]

/-- No edge leaves a terminal state. -/
theorem Edge.eq_of_terminal {s s' : HuntState} (h : Edge s s') (ht : s ∈ terminalStates) : s' = s := by
  rcases h with rfl | h
  · rfl
  · rw [allowedTransitions_of_terminal ht] at h
    simp at h

/-- Only a draft leads to plan review. -/
theorem Edge.of_awaiting {s : HuntState} (h : Edge s awaiting_plan_review) :
    s = awaiting_plan_review ∨ s = plan_draft := by
  revert h
  cases s <;> decide

/-- A hunt that may be cancelled is cancelled along an edge. -/
theorem edge_cancelled {s : HuntState} (h : s ∉ terminalStates) : Edge s cancelled := by
  revert h
  cases s <;> decide

/-- A hunt that has started fails along an edge. -/
theorem edge_failed {s : HuntState} (h : s ∉ created :: terminalStates) : Edge s failed := by
  revert h
  cases s <;> decide

end HuntState

end ThreatHunting
