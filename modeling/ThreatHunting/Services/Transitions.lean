import ThreatHunting.Services.Lawful

/-!
# ThreatHunting.Services.Transitions

The hunt state machine under interleaving. Every persisted change of a hunt's state is a
self-loop or an edge of `ALLOWED_TRANSITIONS`, as long as no plan edit lands on a hunt that
has left plan review: `save_plan` and `revise_plan` alone update without a condition on the
state.
-/

namespace ThreatHunting

open Store Op

/-! ### What a transaction does to one row -/

theorem updateHunt_eq_some {db db' : Database} {owner_id : String} {hunt_id : Uuid} {expect : Expect}
    {values : Values} (h : db.updateHunt owner_id hunt_id expect values = some db') :
    ∃ row, db.hunts hunt_id = some row ∧ expect.matches row = true ∧
      db' = { db with hunts := Function.update db.hunts hunt_id (some (values.set row)) } := by
  unfold Database.updateHunt at h
  split at h
  next row hrow =>
    split at h
    next hm =>
      cases h
      exact ⟨row, (owned_eq_some.mp hrow).1, hm, rfl⟩
    next => cases h
  next => cases h

theorem enqueue_hunts {db db' : Database} {owner_id : String} {hunt_id : Uuid} {job : NewJob}
    (h : db.enqueue owner_id hunt_id job = some db') : db'.hunts = db.hunts := by
  unfold Database.enqueue at h
  split at h
  · cases h
    rfl
  · cases h

/-- The hunt a transaction writes to. -/
def Transaction.target : Transaction → Option Uuid
  | .insert_hunt row => some row.hunt_id
  | .update _ _ hunt_id _ _ | .update_and_enqueue _ hunt_id _ _ _ => some hunt_id
  | .check_lease _ _ | .call_jobs _ _ => none

/-- What an accepted transaction does to the row of one hunt. -/
inductive RowStep (hunt_id : Uuid) : Transaction → Option HuntRow → Option HuntRow → Prop
  | same {t r} : t.target ≠ some hunt_id → RowStep hunt_id t r r
  | insert {row} : row.hunt_id = hunt_id → RowStep hunt_id (.insert_hunt row) none (some row)
  | update {writer owner_id expect values row} : expect.matches row = true →
      RowStep hunt_id (.update writer owner_id hunt_id expect values) (some row) (some (values.set row))
  | enqueue {owner_id expect values job row} : expect.matches row = true →
      RowStep hunt_id (.update_and_enqueue owner_id hunt_id expect values job) (some row)
        (some (values.set row))

theorem rowStep {t : Transaction} {db db' : Database} (h : t.effect db = some db') (hunt_id : Uuid) :
    RowStep hunt_id t (db.hunts hunt_id) (db'.hunts hunt_id) := by
  cases t with
  | insert_hunt row =>
      simp only [Transaction.effect, Database.insertHunt] at h
      split at h
      · cases h
      next hnone =>
        cases h
        by_cases hid : row.hunt_id = hunt_id
        · subst hid
          simpa [hnone] using RowStep.insert rfl
        · simpa [Function.update_of_ne (Ne.symm hid)] using RowStep.same (by simpa [Transaction.target] using hid)
  | update writer owner_id hunt_id' expect values =>
      obtain ⟨row, hrow, hm, rfl⟩ := updateHunt_eq_some h
      by_cases hid : hunt_id' = hunt_id
      · subst hid
        simpa [hrow] using RowStep.update hm
      · simpa [Function.update_of_ne (Ne.symm hid)] using RowStep.same (by simpa [Transaction.target] using hid)
  | update_and_enqueue owner_id hunt_id' expect values job =>
      simp only [Transaction.effect, Option.bind_eq_some_iff] at h
      obtain ⟨db₁, hdb₁, henq⟩ := h
      obtain ⟨row, hrow, hm, rfl⟩ := updateHunt_eq_some hdb₁
      rw [enqueue_hunts henq]
      by_cases hid : hunt_id' = hunt_id
      · subst hid
        simpa [hrow] using RowStep.enqueue hm
      · simpa [Function.update_of_ne (Ne.symm hid)] using RowStep.same (by simpa [Transaction.target] using hid)
  | check_lease lease now =>
      rw [(check_lease_accepted h).1]
      exact .same (by simp [Transaction.target])
  | call_jobs svc call =>
      simp only [Transaction.effect, Option.some.injEq] at h
      rw [← h]
      exact .same (by simp [Transaction.target])

theorem Expect.state_of_matches {e : Expect} {row : HuntRow} {s : HuntState} (h : e.matches row = true)
    (hs : e.state = some s) : row.state = s := by
  unfold Expect.matches at h
  simp only [hs, Option.all_some, Bool.and_eq_true, decide_eq_true_eq] at h
  exact h.1.1.1.symm

theorem Expect.version_of_matches {e : Expect} {row : HuntRow} {v : Nat} (h : e.matches row = true)
    (hv : e.plan_version = some v) : row.plan_version = some v := by
  unfold Expect.matches at h
  simp only [hv, Option.all_some, Bool.and_eq_true, decide_eq_true_eq] at h
  exact h.1.1.2.symm

namespace WorkflowService

/-! ### The state machine -/

/-- The row of a hunt moves along the state machine: it is created CREATED, keeps existing, and
changes state along edges. -/
def StateStep : Option HuntRow → Option HuntRow → Prop
  | none, none => True
  | none, some row => row.state = .created
  | some _, none => False
  | some row, some row' => HuntState.Edge row.state row'.state

/-- Every row moves along the state machine. -/
def FollowsStateMachine (_ : List Event) : Event → Prop
  | .committed _ before after => ∀ hunt_id, StateStep (before.hunts hunt_id) (after.hunts hunt_id)
  | .answered _ _ => True

/-- Is the writer a plan edit? -/
def edits : Writer → Bool
  | .save_plan | .revise_plan => true
  | _ => false

/-- A plan edit is stored while the hunt is still in plan review. -/
def EditsInReview (_ : List Event) : Event → Prop
  | .committed (.update writer _ hunt_id _ _) before _ =>
      edits writer = true → (before.hunts hunt_id).all (fun row => editable row.state) = true
  | _ => True

instance (past : List Event) (e : Event) : Decidable (EditsInReview past e) := by
  unfold EditsInReview
  split <;> infer_instance

theorem StateStep.refl (r : Option HuntRow) : StateStep r r := by
  cases r with
  | none => trivial
  | some row => exact .inl rfl

theorem edge_of_editable {s : HuntState} (h : editable s = true) : HuntState.Edge s .awaiting_plan_review := by
  cases s <;> first | decide | cases h

section

variable {helpers : Helpers} {services : Service → Prop} {s₀ : Database}

/-- A lawful update follows an edge, but for the plan edits. -/
theorem Lawful.edge {past : List Event} {writer : Writer} {hunt_id : Uuid} {expect : Expect}
    {values : Values} {row : HuntRow} (hw : Lawful helpers services s₀ past writer hunt_id expect values)
    (hm : expect.matches row = true)
    (he : edits writer = true → editable row.state = true) :
    HuntState.Edge row.state (values.set row).state := by
  have moves : ∀ {s s'}, expect.state = some s → values.state = some s' → HuntState.Edge s s' →
      HuntState.Edge row.state (values.set row).state := by
    intro s s' hs hs' hedge
    simpa [Values.set, Expect.state_of_matches hm hs, hs'] using hedge
  have stays : values.state = none → HuntState.Edge row.state (values.set row).state := by
    intro hs
    exact .inl (by simp [Values.set, hs])
  cases hw with
  | cancel _ hs => exact moves rfl rfl (HuntState.edge_cancelled hs)
  | discover_start | discover_demo | discover_draft | discover_review | discover_fail =>
      exact moves rfl rfl (by decide)
  | save_plan => exact edge_of_editable (he rfl)
  | revise_plan => exact edge_of_editable (he rfl)
  | approve | reject | finalize_report => exact moves rfl rfl (by decide)
  | execute hs =>
      refine moves rfl rfl ?_
      rcases hs with ⟨rfl, rfl⟩ | ⟨rfl, rfl⟩ | ⟨rfl, rfl⟩ | ⟨rfl, rfl⟩ <;> decide
  | save_report => exact stays rfl
  | execute_job _ _ hedge =>
      simpa [Values.set, Expect.state_of_matches hm rfl] using hedge

/-- A lawful event follows the state machine, if a plan edit finds the hunt in review. -/
theorem LawfulEvent.follows {past : List Event} {e : Event} (hl : LawfulEvent helpers services s₀ past e)
    (he : EditsInReview past e) (hx : ∀ t before after, e = .committed t before after →
      Transaction.effect t before = some after) : FollowsStateMachine past e := by
  cases e with
  | answered q a => trivial
  | committed t before after =>
      intro hunt_id
      have hstep := rowStep (hx t before after rfl) hunt_id
      generalize hr : before.hunts hunt_id = r at hstep ⊢
      generalize hr' : after.hunts hunt_id = r' at hstep ⊢
      cases hstep with
      | same _ => exact .refl _
      | insert _ => exact hl.1
      | update hm => exact Lawful.edge hl hm fun hw => by simpa [hr] using he hw
      | enqueue hm =>
          have hstate := Expect.state_of_matches hm hl.1
          show HuntState.Edge _ _
          simp only [Values.set, hl.2.1, Option.getD_some, hstate]
          decide

/-- Rows keep existing, and terminal states are kept, along a history that follows the state
machine. -/
theorem terminal_kept {past past₀ : List Event} {s s₁ : Database} (hl : Leads s₀ past s)
    (hf : Admitted FollowsStateMachine past) (hp : past₀ <:+ past) (hl₁ : Leads s₀ past₀ s₁)
    {hunt_id : Uuid} {row : HuntRow} (hrow : s₁.hunts hunt_id = some row)
    (ht : row.state ∈ HuntState.terminalStates) :
    ∃ row', s.hunts hunt_id = some row' ∧ row'.state = row.state := by
  induction hl with
  | nil =>
      rw [List.suffix_nil.mp hp] at hl₁
      rw [← hl₁.unique .nil] at hrow
      exact ⟨row, hrow, rfl⟩
  | answered hl ih =>
      rcases List.suffix_cons_iff.mp hp with rfl | hp
      · rw [← hl₁.unique (.answered hl)] at hrow
        exact ⟨row, hrow, rfl⟩
      · exact ih hf.2 hp
  | @committed es s t s' hl htx ih =>
      rcases List.suffix_cons_iff.mp hp with rfl | hp
      · rw [← hl₁.unique (.committed hl htx)] at hrow
        exact ⟨row, hrow, rfl⟩
      · obtain ⟨row₁, hrow₁, hstate₁⟩ := ih hf.2 hp
        have hstep := hf.1 hunt_id
        rw [hrow₁] at hstep
        cases hrow' : s'.hunts hunt_id with
        | none => simp [StateStep, hrow'] at hstep
        | some row' =>
            simp only [StateStep, hrow'] at hstep
            refine ⟨row', rfl, ?_⟩
            rw [hstep.eq_of_terminal (by rw [hstate₁]; exact ht), hstate₁]

/-- **The hunt state machine under interleaving.** In every run in which plan edits are stored while
the hunt is in plan review, every persisted change of a hunt's state is a self-loop or an edge,
and a terminal state is never left. -/
theorem state_machine {h : History} {ps : List Client}
    (run : Pool.Run (Clients helpers fun _ => True) s₀ h ps) (he : Admitted EditsInReview h.past) :
    Admitted FollowsStateMachine h.past ∧
      ∀ past s hunt_id row, past <:+ h.past → Leads s₀ past s → s.hunts hunt_id = some row →
        row.state ∈ HuntState.terminalStates →
          ∃ row', h.now.hunts hunt_id = some row' ∧ row'.state = row.state := by
  obtain ⟨hl, hlawful⟩ := runs_lawful run
  have follows : ∀ {past s}, Leads s₀ past s → Admitted (LawfulEvent helpers (fun _ => True) s₀) past →
      Admitted EditsInReview past → Admitted FollowsStateMachine past := by
    intro past s hl
    induction hl with
    | nil => exact fun _ _ => trivial
    | answered _ ih => exact fun hlaw he => ⟨trivial, ih hlaw.2 he.2⟩
    | committed _ htx ih =>
        intro hlaw he
        refine ⟨hlaw.1.follows he.1 ?_, ih hlaw.2 he.2⟩
        intro t before after heq
        cases heq
        exact htx
  have hf := follows hl hlawful he
  exact ⟨hf, fun past s hunt_id row hp hl₁ hrow ht => terminal_kept hl hf hp hl₁ hrow ht⟩

/-- A plan save and a cancellation, one after the other. -/
theorem state_machine_save_then_cancel :
    ∃ h, lastChange h "h" = some (.awaiting_plan_review, .cancelled) ∧
      Admitted FollowsStateMachine h.past := by
  let moves : List Move :=
    [.start (.save_plan "o" "h" 1 examplePlan), .step 0 (exampleAnswers 0 "u"), .step 0 (exampleAnswers 0 "u"),
      .step 0 (exampleAnswers 0 "u"), .start (.cancel "o" "h"), .step 0 (exampleAnswers 0 "u"),
      .step 0 (exampleAnswers 0 "u"), .step 0 (exampleAnswers 0 "u")]
  obtain ⟨ps, run⟩ := play_run (fun _ => True) trivial moves
    (exampleDatabase (exampleRow .awaiting_plan_review))
  exact ⟨_, by decide +kernel, (state_machine run (by decide +kernel)).1⟩

/-- In a run that follows the state machine, the latest event moves along an edge. -/
theorem edge_of_lastChange {h : History} {hunt_id : Uuid} {s s' : HuntState}
    (hf : Admitted FollowsStateMachine h.past) (hc : lastChange h hunt_id = some (s, s')) :
    HuntState.Edge s s' := by
  unfold lastChange at hc
  split at hc
  next t before after past hpast =>
    rw [hpast] at hf
    have hstep := hf.1 hunt_id
    simp only [Option.bind_eq_bind, Option.bind_eq_some_iff, Option.pure_def, Option.some.injEq,
      Prod.mk.injEq] at hc
    obtain ⟨row, hrow, row', hrow', rfl, rfl⟩ := hc
    simpa only [hrow, hrow', StateStep] using hstep
  next => cases hc

/-- A plan save that read the hunt before it was cancelled. -/
def staleSave : List Move :=
  [.start (.save_plan "o" "h" 1 examplePlan), .step 0 (exampleAnswers 0 "u"), .step 0 (exampleAnswers 0 "u"),
    .start (.cancel "o" "h"), .step 0 (exampleAnswers 0 "u"), .step 0 (exampleAnswers 0 "u"),
    .step 0 (exampleAnswers 0 "u"), .step 1 (exampleAnswers 0 "u")]

/-- A stale plan save moves a cancelled hunt back to plan review. -/
theorem stale_save_revives_cancelled :
    ∃ h ps, Pool.Run (Clients exampleHelpers fun _ => True)
        (exampleDatabase (exampleRow .awaiting_plan_review)) h ps ∧
      lastChange h "h" = some (.cancelled, .awaiting_plan_review) ∧
      ¬ Admitted FollowsStateMachine h.past := by
  obtain ⟨ps, run⟩ := play_run (fun _ => True) trivial staleSave
    (exampleDatabase (exampleRow .awaiting_plan_review))
  have hc : lastChange (play staleSave (exampleDatabase (exampleRow .awaiting_plan_review))) "h" =
      some (.cancelled, .awaiting_plan_review) := by decide +kernel
  refine ⟨_, ps, run, hc, fun hf => ?_⟩
  exact absurd (edge_of_lastChange hf hc) (by decide)

end

end WorkflowService

end ThreatHunting
