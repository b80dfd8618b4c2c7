import ThreatHunting.Domain.State
import ThreatHunting.Lib.Fallible

/-!
# ThreatHunting.Domain.Machine

`HuntStateMachine` of `domain/state.py`: a hunt's state with the target its pause is to
resume. Histories are sequences of accepted moves from a new machine. What a resumption
returns to holds in every history; the rest of what the pause metadata promises holds in
those that never queue a paused hunt, as the target is kept then.
-/

namespace ThreatHunting

open Fallible

/-- `PausedResumeTarget`. -/
inductive PausedResumeTarget
  | running | synthesizing
  deriving DecidableEq, Repr

/-- The workflow state of the same name. -/
def PausedResumeTarget.state : PausedResumeTarget → HuntState
  | running => .running
  | synthesizing => .synthesizing

/-- What the state machine raises. -/
inductive MachineError
  | invalidStateTransition (current target : HuntState)
  | valueError (message : String)
  deriving DecidableEq, Repr

/-- `HuntStateMachine`. -/
structure HuntStateMachine where
  state : HuntState
  resume_target : Option PausedResumeTarget
  deriving DecidableEq, Repr

namespace HuntStateMachine

/-- A machine with the constructor's defaults. -/
def new : HuntStateMachine := ⟨.created, none⟩

/-- The constructor, with the check of `__post_init__`. -/
def init (state : HuntState) (resume_target : Option PausedResumeTarget) :
    Except MachineError HuntStateMachine :=
  if state ≠ .paused ∧ resume_target.isSome then
    .error (.valueError "resume_target is only valid while state is paused")
  else .ok ⟨state, resume_target⟩

/-- `HuntStateMachine.can_transition`: the table, and the pause metadata of a queued hunt. -/
def can_transition (m : HuntStateMachine) (target : HuntState) : Bool :=
  if !HuntState.can_transition m.state target then false
  else if m.state = .queued ∧ (target = .running ∨ target = .synthesizing) then
    match m.resume_target with
    | some t => target == t.state
    | none => target != .synthesizing
  else true

/-- `HuntStateMachine.transition`. -/
def transition (m : HuntStateMachine) (target : HuntState)
    (resume_target : Option PausedResumeTarget) : Except MachineError HuntStateMachine :=
  if m.state = .cancelled ∧ target = .cancelled then .ok m
  else if !m.can_transition target then .error (.invalidStateTransition m.state target)
  else if m.state = .running ∧ target = .paused then .ok ⟨target, some .running⟩
  else if m.state = .synthesizing ∧ target = .paused then .ok ⟨target, some .synthesizing⟩
  else if m.state = .paused ∧ target = .queued then
    if resume_target.isSome ∧ resume_target ≠ m.resume_target then
      .error (.valueError "resume_target does not match paused hunt metadata")
    else .ok ⟨target, m.resume_target⟩
  else if m.state = .queued ∧ target = .synthesizing then
    if resume_target.isSome ∧ resume_target ≠ some .synthesizing then
      .error (.valueError "queued synthesis requires a synthesizing resume target")
    else .ok ⟨target, m.resume_target⟩
  else if target ∈ HuntState.terminalStates ∨ target = .running ∨ target = .synthesizing then
    .ok ⟨target, none⟩
  else .ok ⟨target, m.resume_target⟩

/-! ### One move -/

theorem can_transition_of_transition {m m' : HuntStateMachine} {target : HuntState}
    {r : Option PausedResumeTarget} (h : m.transition target r = .ok m')
    (hc : ¬(m.state = .cancelled ∧ target = .cancelled)) : m.can_transition target = true := by
  rw [transition, if_neg hc] at h
  cases hcan : m.can_transition target with
  | true => rfl
  | false => simp [hcan] at h

/-- An accepted move follows the table, and ends in its target. -/
theorem transition_state {m m' : HuntStateMachine} {target : HuntState}
    {r : Option PausedResumeTarget} (h : m.transition target r = .ok m') :
    m'.state = target ∧ HuntState.can_transition m.state target = true := by
  by_cases hc : m.state = .cancelled ∧ target = .cancelled
  · rw [transition, if_pos hc] at h
    cases h
    refine ⟨hc.1.trans hc.2.symm, ?_⟩
    rw [hc.1, hc.2]
    rfl
  · have hcan := can_transition_of_transition h hc
    have htable : HuntState.can_transition m.state target = true := by
      cases ht : HuntState.can_transition m.state target with
      | true => rfl
      | false => simp [can_transition, ht] at hcan
    refine ⟨?_, htable⟩
    rw [transition, if_neg hc, hcan] at h
    simp only [Bool.not_true, Bool.false_eq_true, if_false] at h
    repeat' split at h
    all_goals cases h
    all_goals rfl

/-- A queued hunt runs or synthesizes as its metadata says: as it was paused, or, if it was
not, by running. -/
theorem transition_queued {m m' : HuntStateMachine} {target : HuntState}
    {r : Option PausedResumeTarget} (h : m.transition target r = .ok m') (hq : m.state = .queued)
    (ht : target = .running ∨ target = .synthesizing) :
    target = (m.resume_target.map PausedResumeTarget.state).getD .running := by
  have hcan := can_transition_of_transition h (by simp [hq])
  have htable := (transition_state h).2
  rw [can_transition, htable, if_neg (by decide), if_pos ⟨hq, ht⟩] at hcan
  cases hm : m.resume_target with
  | some t =>
      rw [hm] at hcan
      simpa using hcan
  | none =>
      rw [hm] at hcan
      rcases ht with rfl | rfl
      · rfl
      · simp at hcan

/-- A pause records the state it interrupts. -/
theorem transition_paused {m m' : HuntStateMachine} {r : Option PausedResumeTarget}
    (h : m.transition .paused r = .ok m') : m'.resume_target.map PausedResumeTarget.state = some m.state := by
  have htable := (transition_state h).2
  have hfrom : m.state = .running ∨ m.state = .synthesizing := by
    revert htable
    cases m.state <;> decide
  have hcan : m.can_transition .paused = true := by
    rw [can_transition, htable]
    simp
  rw [transition, if_neg (by simp), hcan] at h
  rcases hfrom with hs | hs <;> simp [hs] at h <;> subst h <;> simp [PausedResumeTarget.state, hs]

/-- Only a pause sets the target; any other move keeps it or drops it. -/
theorem transition_resume_target {m m' : HuntStateMachine} {target : HuntState}
    {r : Option PausedResumeTarget} (h : m.transition target r = .ok m') (hp : target ≠ .paused) :
    m'.resume_target = m.resume_target ∨ m'.resume_target = none := by
  rw [transition] at h
  simp only [hp, and_false, if_false] at h
  repeat' split at h
  all_goals cases h
  all_goals simp

/-- Queueing a paused hunt keeps the target. -/
theorem transition_requeue {m m' : HuntStateMachine} {r : Option PausedResumeTarget}
    (h : m.transition .queued r = .ok m') (hm : m.state = .paused) :
    m'.resume_target = m.resume_target := by
  rw [transition] at h
  simp only [hm, reduceCtorEq, false_and, if_false, true_and, if_true] at h
  repeat' split at h
  all_goals cases h
  rfl

/-- A paused hunt that is not queued again loses its target. -/
theorem transition_leave {m m' : HuntStateMachine} {target : HuntState} {r : Option PausedResumeTarget}
    (h : m.transition target r = .ok m') (hm : m.state = .paused) (hq : target ≠ .queued) :
    m'.resume_target = none := by
  have htable := (transition_state h).2
  have hterminal : target ∈ HuntState.terminalStates := by
    rw [hm] at htable
    revert htable hq
    cases target <;> decide
  have hp : target ≠ .paused := by
    rintro rfl
    exact absurd hterminal (by decide)
  rw [transition] at h
  simp only [hm, hp, hq, hterminal, reduceCtorEq, false_and, and_false, if_false, true_or, if_true] at h
  split at h
  · cases h
  · cases h
    rfl

/-! ### Histories -/

/-- One call of `transition`. -/
structure Move where
  target : HuntState
  resume_target : Option PausedResumeTarget := none
  deriving DecidableEq, Repr

/-- The machine after a sequence of moves, each of which has to be accepted. -/
def run (m : HuntStateMachine) : List Move → Except MachineError HuntStateMachine
  | [] => .ok m
  | mv :: moves => do run (← m.transition mv.target mv.resume_target) moves

section Histories

variable {m m' : HuntStateMachine} {moves : List Move}

theorem run_append {before after : List Move} :
    run m (before ++ after) = .ok m' ↔ ∃ m₁, run m before = .ok m₁ ∧ run m₁ after = .ok m' := by
  induction before generalizing m with
  | nil => simp [run]
  | cons mv before ih =>
      rw [List.cons_append, run, run]
      constructor
      · intro h
        obtain ⟨m₁, hfirst, hrest⟩ := bind_eq_ok.mp h
        obtain ⟨m₂, hbefore, hafter⟩ := ih.mp hrest
        exact ⟨m₂, bind_eq_ok.mpr ⟨m₁, hfirst, hbefore⟩, hafter⟩
      · rintro ⟨m₂, hbefore, hafter⟩
        obtain ⟨m₁, hfirst, hrest⟩ := bind_eq_ok.mp hbefore
        exact bind_eq_ok.mpr ⟨m₁, hfirst, ih.mpr ⟨m₂, hrest, hafter⟩⟩

theorem run_cons {mv : Move} :
    run m (mv :: moves) = .ok m' ↔
      ∃ m₁, m.transition mv.target mv.resume_target = .ok m₁ ∧ run m₁ moves = .ok m' := by
  rw [run, bind_eq_ok]

theorem run_snoc {mv : Move} :
    run m (moves ++ [mv]) = .ok m' ↔
      ∃ m₁, run m moves = .ok m₁ ∧ m₁.transition mv.target mv.resume_target = .ok m' := by
  rw [run_append]
  constructor
  · rintro ⟨m₁, hrun, hlast⟩
    obtain ⟨m₂, hmove, hnil⟩ := run_cons.mp hlast
    cases hnil
    exact ⟨m₁, hrun, hmove⟩
  · rintro ⟨m₁, hrun, hmove⟩
    exact ⟨m₁, hrun, run_cons.mpr ⟨m', hmove, rfl⟩⟩

/-- A hunt that is not as it was created is where its last move led. -/
theorem exists_last (h : run m moves = .ok m') (hne : m'.state ≠ m.state) :
    ∃ before mv, moves = before ++ [mv] ∧ mv.target = m'.state := by
  rcases List.eq_nil_or_concat' moves with rfl | ⟨before, mv, rfl⟩
  · cases h
    exact absurd rfl hne
  · obtain ⟨m₁, -, hmove⟩ := run_snoc.mp h
    exact ⟨before, mv, rfl, (transition_state hmove).1.symm⟩

end Histories

/-- No paused hunt is queued again. -/
def NeverRequeues (moves : List Move) : Prop :=
  moves.IsChain fun pause queue => pause.target = .paused → queue.target ≠ .queued

instance (moves : List Move) : Decidable (NeverRequeues moves) := by
  unfold NeverRequeues
  infer_instance

/-- What the pause metadata promises of a history. -/
structure PauseMetadata (moves : List Move) : Prop where
  /-- The target is set only between a pause and the move that resumes or abandons it. -/
  bracketed : ∀ pre post m, moves = pre ++ post → run new pre = .ok m → m.resume_target ≠ none →
    ∃ before pause since, pre = before ++ pause :: since ∧ pause.target = .paused ∧
      ∀ mv ∈ since, mv.target = .queued
  /-- Resuming returns to the state that was paused. -/
  resumes : ∀ pre pause queue resume post m, moves = pre ++ pause :: queue :: resume :: post →
    run new pre = .ok m → pause.target = .paused → queue.target = .queued →
    resume.target = .running ∨ resume.target = .synthesizing → resume.target = m.state
  /-- After a plan approval the hunt runs before it synthesizes. -/
  approval : ∀ pre approve mid synthesize post, moves = pre ++ approve :: mid ++ synthesize :: post →
    approve.target = .approved → synthesize.target = .synthesizing → ∃ mv ∈ mid, mv.target = .running
  /-- The constructor accepts every machine the history reaches, as it is. -/
  rebuilt : ∀ pre post m, moves = pre ++ post → run new pre = .ok m →
    init m.state m.resume_target = .ok m

/-- Where no paused hunt is queued again, only a paused hunt has a target. -/
theorem NeverRequeues.paused_of_target {m : HuntStateMachine} {moves : List Move}
    (hnever : NeverRequeues moves) (h : run new moves = .ok m) (hr : m.resume_target ≠ none) :
    m.state = .paused := by
  induction moves using List.reverseRecOn generalizing m with
  | nil =>
      cases h
      exact absurd rfl hr
  | append_singleton before mv ih =>
      obtain ⟨m₁, hrun, hmove⟩ := run_snoc.mp h
      rw [(transition_state hmove).1]
      by_contra hp
      -- the target was there before the move, so the hunt was paused
      have hr₁ : m₁.resume_target ≠ none := by
        rcases transition_resume_target hmove hp with heq | heq
        · rwa [← heq]
        · exact absurd heq hr
      have hm₁ := ih (List.IsChain.left_of_append hnever) hrun hr₁
      obtain ⟨earlier, pause, rfl, hpause⟩ := exists_last hrun (by simp [hm₁, new])
      have hpair : (earlier ++ pause :: mv :: []).IsChain
          fun pause queue => pause.target = .paused → queue.target ≠ .queued := by
        rwa [NeverRequeues, List.append_assoc] at hnever
      have hq := (List.isChain_append_cons_cons.mp hpair).2.1 (hpause.trans hm₁)
      exact hr (transition_leave hmove hm₁ hq)

/-- In every history, resuming returns to the state that was paused. -/
theorem resume_returns {m m' : HuntStateMachine} {pause queue resume : Move}
    (h : run m [pause, queue, resume] = .ok m') (hpause : pause.target = .paused)
    (hqueue : queue.target = .queued)
    (hresume : resume.target = .running ∨ resume.target = .synthesizing) : resume.target = m.state := by
  obtain ⟨m₁, h₁, h⟩ := run_cons.mp h
  obtain ⟨m₂, h₂, h⟩ := run_cons.mp h
  obtain ⟨m₃, h₃, -⟩ := run_cons.mp h
  have hs₁ : m₁.state = .paused := (transition_state h₁).1.trans hpause
  have hs₂ : m₂.state = .queued := (transition_state h₂).1.trans hqueue
  rw [hpause] at h₁
  rw [hqueue] at h₂
  rw [transition_queued h₃ hs₂ hresume, transition_requeue h₂ hs₁, transition_paused h₁]
  rfl

/-- A hunt with an approved plan that has not run yet, or is being planned anew. -/
def AwaitsRun (m : HuntStateMachine) : Prop :=
  m.resume_target = none ∧ m.state ∈ [HuntState.approved, .queued, .plan_draft, .awaiting_plan_review,
    .cancelled, .failed]

/-- Such a hunt stays one until it runs. -/
theorem AwaitsRun.transition {m m' : HuntStateMachine} {target : HuntState}
    {r : Option PausedResumeTarget} (hm : AwaitsRun m) (h : m.transition target r = .ok m')
    (hrun : target ≠ .running) : AwaitsRun m' ∧ target ≠ .synthesizing := by
  obtain ⟨hstate, htable⟩ := transition_state h
  have hsynth : target ≠ .synthesizing := by
    rintro rfl
    by_cases hq : m.state = .queued
    · have := transition_queued h hq (.inr rfl)
      simp [hm.1] at this
    · have hs := hm.2
      revert htable hs hq
      cases m.state <;> decide
  have hreach : target ∈ [HuntState.approved, .queued, .plan_draft, .awaiting_plan_review, .cancelled,
      .failed] := by
    have hs := hm.2
    revert htable hs hrun hsynth
    cases m.state <;> cases target <;> decide
  have hp : target ≠ .paused := by
    rintro rfl
    simp at hreach
  refine ⟨⟨?_, hstate ▸ hreach⟩, hsynth⟩
  rcases transition_resume_target h hp with heq | heq
  · rw [heq, hm.1]
  · exact heq

theorem AwaitsRun.run {m m' : HuntStateMachine} {moves : List Move} (hm : AwaitsRun m)
    (h : run m moves = .ok m') (hrun : ∀ mv ∈ moves, mv.target ≠ .running) : AwaitsRun m' := by
  induction moves generalizing m with
  | nil =>
      cases h
      exact hm
  | cons mv moves ih =>
      rw [List.forall_mem_cons] at hrun
      obtain ⟨m₁, hmove, hrest⟩ := run_cons.mp h
      exact ih (hm.transition hmove hrun.1).1 hrest hrun.2

/-- **The pause metadata keeps its promises** in exactly the histories that never queue a
paused hunt again. -/
theorem pause_metadata_iff {m : HuntStateMachine} {moves : List Move} (h : run new moves = .ok m) :
    PauseMetadata moves ↔ NeverRequeues moves := by
  constructor
  · intro hmeta
    rw [NeverRequeues, List.isChain_iff_forall_rel_of_append_cons_cons]
    intro pause queue pre post hsplit hpause hqueue
    have hsplit' : moves = (pre ++ [pause]) ++ [queue] ++ post := by simp [hsplit]
    rw [hsplit'] at h
    obtain ⟨m₂, hrun₂, -⟩ := run_append.mp h
    obtain ⟨m₁, hrun₁, h₂⟩ := run_snoc.mp hrun₂
    obtain ⟨m₀, -, h₁⟩ := run_snoc.mp hrun₁
    have hs₁ : m₁.state = .paused := (transition_state h₁).1.trans hpause
    have hs₂ : m₂.state = .queued := (transition_state h₂).1.trans hqueue
    -- the target the pause recorded is still there, and the constructor refuses it
    rw [hpause] at h₁
    rw [hqueue] at h₂
    have htarget := transition_paused h₁
    rw [← transition_requeue h₂ hs₁] at htarget
    have hinit := hmeta.rebuilt _ _ m₂ hsplit' hrun₂
    cases hr : m₂.resume_target with
    | none => simp [hr] at htarget
    | some t => simp [init, hs₂, hr] at hinit
  · intro hnever
    have hpaused : ∀ pre post m, moves = pre ++ post → run new pre = .ok m →
        m.resume_target ≠ none → m.state = .paused := by
      intro pre post m₁ hsplit hrun
      rw [hsplit, NeverRequeues] at hnever
      exact (show NeverRequeues pre from hnever.left_of_append).paused_of_target hrun
    constructor
    case bracketed =>
      intro pre post m₁ hsplit hrun hr
      have hs := hpaused pre post m₁ hsplit hrun hr
      obtain ⟨before, pause, rfl, hpause⟩ := exists_last hrun (by simp [hs, new])
      exact ⟨before, pause, [], rfl, hpause.trans hs, by simp⟩
    case resumes =>
      intro pre pause queue resume post m₁ hsplit hrun hpause hqueue hresume
      have hsplit' : moves = pre ++ ([pause, queue, resume] ++ post) := by simp [hsplit]
      rw [hsplit'] at h
      obtain ⟨m₂, hrun₂, hrest⟩ := run_append.mp h
      obtain rfl : m₂ = m₁ := by
        rw [hrun] at hrun₂
        exact (Except.ok.inj hrun₂).symm
      obtain ⟨m₃, hthree, -⟩ := run_append.mp hrest
      exact resume_returns hthree hpause hqueue hresume
    case approval =>
      intro pre approve mid synthesize post hsplit happrove hsynth
      by_contra hno
      simp only [not_exists, not_and] at hno
      have hsplit' : moves = (pre ++ [approve]) ++ (mid ++ synthesize :: post) := by simp [hsplit]
      rw [hsplit'] at h
      obtain ⟨m₁, hrun₁, hrest⟩ := run_append.mp h
      obtain ⟨m₂, hmid, hrest⟩ := run_append.mp hrest
      obtain ⟨m₃, hmove, -⟩ := run_cons.mp hrest
      have hs₁ : m₁.state = .approved := by
        obtain ⟨m₀, -, hlast⟩ := run_snoc.mp hrun₁
        exact (transition_state hlast).1.trans happrove
      have hnone : m₁.resume_target = none := by
        by_contra hr
        have := hpaused _ _ m₁ hsplit' hrun₁ hr
        simp [hs₁] at this
      have hwaits : AwaitsRun m₁ := ⟨hnone, by simp [hs₁]⟩
      have hwaits := hwaits.run hmid hno
      exact (hwaits.transition hmove (by simp [hsynth])).2 hsynth
    case rebuilt =>
      intro pre post m₁ hsplit hrun
      rw [init, if_neg]
      rintro ⟨hs, hr⟩
      exact hs (hpaused pre post m₁ hsplit hrun (by
        intro hnone
        simp [hnone] at hr))

/-- Moves without a stated resume target. -/
def movesTo (targets : List HuntState) : List Move := targets.map fun s => ⟨s, none⟩

theorem pause_metadata_cancelled :
    PauseMetadata (movesTo [.discovering, .plan_draft, .awaiting_plan_review, .approved, .queued, .running,
      .paused, .cancelled]) :=
  (pause_metadata_iff (m := ⟨.cancelled, none⟩) (by decide)).mpr (by decide)

/-- A hunt that was paused in synthesis, queued and planned anew synthesizes without running;
the queued machine it came through is one the constructor refuses. -/
theorem redrafted_hunt_skips_running :
    ∃ before after, run new before = .ok ⟨.queued, some .synthesizing⟩ ∧
      (∃ e, init .queued (some .synthesizing) = .error e) ∧
      run ⟨.queued, some .synthesizing⟩ after = .ok ⟨.synthesizing, some .synthesizing⟩ ∧
      (∃ mv ∈ after, mv.target = .approved) ∧ (∀ mv ∈ after, mv.target ≠ .running) ∧
      ¬PauseMetadata (before ++ after) := by
  refine ⟨movesTo [.discovering, .plan_draft, .awaiting_plan_review, .approved, .queued, .running,
    .synthesizing, .paused, .queued], movesTo [.plan_draft, .awaiting_plan_review, .approved, .queued,
    .synthesizing], by decide, ⟨_, rfl⟩, by decide, by decide, by decide, fun hmeta => ?_⟩
  have hinit := hmeta.rebuilt _ _ ⟨.queued, some .synthesizing⟩ rfl (by decide)
  exact absurd hinit (by decide)

end HuntStateMachine

end ThreatHunting
