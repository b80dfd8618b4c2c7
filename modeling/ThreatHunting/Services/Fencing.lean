import ThreatHunting.Services.Transitions

/-!
# ThreatHunting.Services.Fencing

Are a worker's checkpoints fenced by its lease? A worker checks its lease in one
transaction and stores its results in another, whose condition does not mention the
lease. A checkpoint is fenced exactly as long as no claim of the job falls between the
two; a job recovered and claimed there lets the superseded worker overwrite the
checkpoint of the new one.
-/

namespace ThreatHunting

open Store Op

/-! ### Generations along a history -/

/-- Is the event a check that the lease passed? -/
def passes (lease : JobLease) : Event → Bool
  | .committed (.check_lease lease' _) _ _ => lease' = lease
  | _ => false

/-- The event is a claim of the job. -/
def ClaimsJob (job_id : Uuid) : Event → Prop
  | .committed (.call_jobs svc call) before _ => call.Claims svc before.jobs job_id
  | _ => False

instance (job_id : Uuid) (e : Event) : Decidable (ClaimsJob job_id e) := by
  unfold ClaimsJob
  split <;> infer_instance

/-- The job has not been claimed since the lease last passed a check. -/
def UnclaimedSinceCheck (lease : JobLease) : List Event → Prop
  | [] => True
  | e :: past => passes lease e = true ∨ ¬ClaimsJob lease.job_id e ∧ UnclaimedSinceCheck lease past

instance UnclaimedSinceCheck.decidable (lease : JobLease) : ∀ past, Decidable (UnclaimedSinceCheck lease past)
  | [] => isTrue trivial
  | _ :: past =>
      have := UnclaimedSinceCheck.decidable lease past
      inferInstanceAs (Decidable (_ ∨ _ ∧ UnclaimedSinceCheck lease past))

/-- `enqueue` keeps every stored job. -/
theorem enqueue_find {db db' : Database} {owner_id : String} {hunt_id : Uuid} {job : NewJob}
    (h : db.enqueue owner_id hunt_id job = some db') {job_id : Uuid} {j : Job}
    (hj : db.jobs.find job_id = some j) : db'.jobs.find job_id = some j := by
  unfold Database.enqueue at h
  split at h
  next jobs k hr =>
    cases h
    rcases enqueue_eq_ok hr with rfl | hi
    · exact hj
    · exact JobTable.find_insert hi hj
  next => cases h

/-- What an accepted transaction does to one stored job: nothing, or a call's step. -/
theorem jobStep {t : Transaction} {db db' : Database} (h : t.effect db = some db') {job_id : Uuid} {j : Job}
    (hj : db.jobs.find job_id = some j) :
    db'.jobs.find job_id = some j ∨ ∃ svc call, t = .call_jobs svc call ∧ db'.jobs = call.apply svc db.jobs := by
  cases t with
  | insert_hunt row =>
      simp only [Transaction.effect, Database.insertHunt] at h
      split at h
      · cases h
      · cases h
        exact .inl hj
  | update writer owner_id hunt_id expect values =>
      obtain ⟨row, -, -, rfl⟩ := updateHunt_eq_some h
      exact .inl hj
  | update_and_enqueue owner_id hunt_id expect values job =>
      simp only [Transaction.effect, Option.bind_eq_some_iff] at h
      obtain ⟨db₁, hdb₁, henq⟩ := h
      obtain ⟨row, -, -, rfl⟩ := updateHunt_eq_some hdb₁
      exact .inl (enqueue_find henq hj)
  | check_lease lease now =>
      rw [(check_lease_accepted h).1]
      exact .inl hj
  | call_jobs svc call =>
      cases h
      exact .inr ⟨svc, call, rfl, rfl⟩

theorem JobTable.generation_eq_some {t : JobTable} {job_id : Uuid} {g : Nat} :
    t.generation job_id = some g ↔ ∃ j, t.find job_id = some j ∧ j.attempts = g := by
  simp [JobTable.generation]

/-- A transaction never lowers a job's generation. -/
theorem generation_step {t : Transaction} {db db' : Database} (h : t.effect db = some db') {job_id : Uuid}
    {g : Nat} (hg : db.jobs.generation job_id = some g) :
    ∃ g', db'.jobs.generation job_id = some g' ∧ g ≤ g' := by
  obtain ⟨j, hj, rfl⟩ := JobTable.generation_eq_some.mp hg
  rcases jobStep h hj with hj' | ⟨svc, call, -, hdb⟩
  · exact ⟨_, JobTable.generation_eq_some.mpr ⟨j, hj', rfl⟩, Nat.le_refl _⟩
  · obtain ⟨j', hj', st⟩ := call.step svc hj
    rw [hdb]
    exact ⟨_, JobTable.generation_eq_some.mpr ⟨j', hj', rfl⟩, st.generation_le⟩

/-- A transaction that does not claim the job keeps its generation. -/
theorem generation_kept {t : Transaction} {db db' : Database} (h : t.effect db = some db') {job_id : Uuid}
    {g : Nat} (hg : db.jobs.generation job_id = some g)
    (hc : ¬ClaimsJob job_id (.committed (S := signature) t db db')) : db'.jobs.generation job_id = some g := by
  obtain ⟨j, hj, rfl⟩ := JobTable.generation_eq_some.mp hg
  rcases jobStep h hj with hj' | ⟨svc, call, rfl, hdb⟩
  · exact JobTable.generation_eq_some.mpr ⟨j, hj', rfl⟩
  · rw [hdb]
    exact JobCall.generation_of_not_claims hc hj

/-- Generations never fall along a history. -/
theorem generation_mono {s₀ s s₁ : Database} {past past₁ : List Event} (hl : Leads s₀ past s)
    (hl₁ : Leads s₀ past₁ s₁) (hp : past₁ <:+ past) {job_id : Uuid} {g : Nat}
    (hg : s₁.jobs.generation job_id = some g) :
    ∃ g', s.jobs.generation job_id = some g' ∧ g ≤ g' := by
  induction hl with
  | nil =>
      rw [List.suffix_nil.mp hp] at hl₁
      rw [← hl₁.unique .nil] at hg
      exact ⟨g, hg, Nat.le_refl _⟩
  | answered hl ih =>
      rcases List.suffix_cons_iff.mp hp with rfl | hp
      · rw [← hl₁.unique (.answered hl)] at hg
        exact ⟨g, hg, Nat.le_refl _⟩
      · exact ih hp
  | committed hl htx ih =>
      rcases List.suffix_cons_iff.mp hp with rfl | hp
      · rw [← hl₁.unique (.committed hl htx)] at hg
        exact ⟨g, hg, Nat.le_refl _⟩
      · obtain ⟨g₁, hg₁, hle⟩ := ih hp
        obtain ⟨g', hg', hle'⟩ := generation_step htx hg₁
        exact ⟨g', hg', Nat.le_trans hle hle'⟩

/-- A lease that passed a check is current until its job is claimed. -/
theorem generation_of_unclaimed {s₀ s : Database} {past : List Event} {lease : JobLease}
    (hl : Leads s₀ past s) (hc : Checked lease past) (hu : UnclaimedSinceCheck lease past) :
    s.jobs.generation lease.job_id = some lease.generation := by
  induction hl with
  | nil =>
      obtain ⟨now, db, db', he⟩ := hc
      cases he
  | answered hl ih =>
      obtain ⟨now, db, db', he⟩ := hc
      have he' := (List.mem_cons.mp he).resolve_left (by simp)
      exact ih ⟨now, db, db', he'⟩ (hu.resolve_left (by simp [passes])).2
  | @committed es s t s' hl htx ih =>
      by_cases hpass : passes lease (.committed (S := signature) t s s') = true
      · -- the check itself
        cases t with
        | check_lease lease' now =>
            obtain rfl : lease' = lease := by simpa [passes] using hpass
            obtain ⟨rfl, j, hj⟩ := check_lease_accepted htx
            obtain ⟨hf, -, -, hg⟩ := require_lease_ok hj
            exact JobTable.generation_eq_some.mpr ⟨j, hf, hg⟩
        | insert_hunt | update | update_and_enqueue | call_jobs => simp [passes] at hpass
      · obtain ⟨hno, hu⟩ := hu.resolve_left hpass
        obtain ⟨now, db, db', he⟩ := hc
        have he' : Store.Event.committed (S := signature) (Transaction.check_lease lease now) db db' ∈ es := by
          rcases List.mem_cons.mp he with he | he
          · rw [← he] at hpass
            simp [passes] at hpass
          · exact he
        exact generation_kept htx (ih ⟨now, db, db', he'⟩ hu) hno

namespace WorkflowService

/-! ### Checkpoints -/

/-- The lease a results checkpoint is written under. -/
def checkpointLease : Event → Option JobLease
  | .committed (.update (.execute_job lease _) _ _ _ values) _ _ =>
      if values.results.isSome then some lease else none
  | _ => none

/-- A checkpoint is written before anyone claims the job after the writer's last check. -/
def WrittenUnclaimed (past : List Event) (e : Event) : Prop :=
  ∀ lease ∈ checkpointLease e, UnclaimedSinceCheck lease past

instance (past : List Event) (e : Event) : Decidable (WrittenUnclaimed past e) := by
  unfold WrittenUnclaimed
  infer_instance

/-- A checkpoint is written under the current generation of its job. -/
def Fenced (_ : List Event) : Event → Prop
  | e@(.committed _ before _) => ∀ lease ∈ checkpointLease e,
      before.jobs.generation lease.job_id = some lease.generation
  | .answered _ _ => True

instance (past : List Event) (e : Event) : Decidable (Fenced past e) := by
  unfold Fenced
  split <;> infer_instance

/-- No checkpoint is stored over one of a later generation of the same job. -/
def NotSuperseded (past : List Event) (e : Event) : Prop :=
  ∀ lease ∈ checkpointLease e, ∀ e' ∈ past, ∀ lease' ∈ checkpointLease e',
    lease'.job_id = lease.job_id → lease'.generation ≤ lease.generation

instance (past : List Event) (e : Event) : Decidable (NotSuperseded past e) := by
  unfold NotSuperseded
  infer_instance

section

variable {helpers : Helpers} {services : Service → Prop} {s₀ : Database}

/-- A lawful checkpoint's lease passed a check before. -/
theorem LawfulEvent.checked {past : List Event} {e : Event} {lease : JobLease}
    (hl : LawfulEvent helpers services s₀ past e) (hw : checkpointLease e = some lease) : Checked lease past := by
  unfold checkpointLease at hw
  split at hw
  next lease' completed owner_id hunt_id expect values before after =>
    split at hw
    · cases hw
      cases (show Lawful helpers services s₀ past (.execute_job lease completed) hunt_id expect values from hl) with
      | execute_job hc => exact hc
    · cases hw
  next => cases hw

/-- Where every checkpoint is written unclaimed, the generation stored for a job is that of its
latest checkpoint or a later one. -/
theorem checkpoints_bounded {past : List Event} {s : Database} (hl : Leads s₀ past s)
    (hlaw : Admitted (LawfulEvent helpers services s₀) past) (hu : Admitted WrittenUnclaimed past) :
    Admitted Fenced past ∧ Admitted NotSuperseded past ∧
      ∀ e ∈ past, ∀ lease ∈ checkpointLease e,
        ∃ g, s.jobs.generation lease.job_id = some g ∧ lease.generation ≤ g := by
  induction hl with
  | nil => exact ⟨trivial, trivial, by simp⟩
  | answered hl ih =>
      obtain ⟨hf, hn, hb⟩ := ih hlaw.2 hu.2
      refine ⟨⟨trivial, hf⟩, ⟨by simp [NotSuperseded, checkpointLease], hn⟩, ?_⟩
      intro e he lease hw
      rcases List.mem_cons.mp he with rfl | he
      · simp [checkpointLease] at hw
      · exact hb e he lease hw
  | @committed es s t s' hl htx ih =>
      obtain ⟨hf, hn, hb⟩ := ih hlaw.2 hu.2
      have hcurrent : ∀ lease ∈ checkpointLease (.committed t s s'),
          s.jobs.generation lease.job_id = some lease.generation :=
        fun lease hw => generation_of_unclaimed hl (LawfulEvent.checked hlaw.1 hw) (hu.1 lease hw)
      refine ⟨⟨hcurrent, hf⟩, ⟨?_, hn⟩, ?_⟩
      · intro lease hw e' he' lease' hw' hjob
        obtain ⟨g, hg, hle⟩ := hb e' he' lease' hw'
        rw [hjob, hcurrent lease hw] at hg
        cases hg
        exact hle
      · intro e he lease hw
        have hbound : ∃ g, s.jobs.generation lease.job_id = some g ∧ lease.generation ≤ g := by
          rcases List.mem_cons.mp he with rfl | he
          · exact ⟨_, hcurrent lease hw, Nat.le_refl _⟩
          · exact hb e he lease hw
        obtain ⟨g, hg, hle⟩ := hbound
        obtain ⟨g', hg', hle'⟩ := generation_step htx hg
        exact ⟨g', hg', Nat.le_trans hle hle'⟩

/-- **Fenced checkpoints.** In every run in which no claim of a job falls between a worker's last
check of its lease and the checkpoint it then writes, every checkpoint is written under the
current generation, and none is stored over a checkpoint of a later generation. -/
theorem checkpoints_fenced {h : History} {ps : List Client}
    (run : Pool.Run (Clients helpers services) s₀ h ps) (hu : Admitted WrittenUnclaimed h.past) :
    Admitted Fenced h.past ∧ Admitted NotSuperseded h.past := by
  obtain ⟨hl, hlaw⟩ := runs_lawful run
  obtain ⟨hf, hn, -⟩ := checkpoints_bounded hl hlaw hu
  exact ⟨hf, hn⟩

/-- A hunt whose queries are done and whose time for further ones is over. -/
def lateHunt : Database :=
  claimedDatabase (exampleExecution .running
    { query_ledger := some [], usage := some {}, execution_started_at_utc := some 0 }) 1000000000

/-- An attempt of a worker under a lease. -/
def attempt (worker_id : String) (generation : Nat) (now : Instant) : Operation :=
  .execute_job exampleInvestigation (exampleLease worker_id generation now) 5

/-- The `i`-th client takes `n` steps at one time. -/
def stepsAt (i n : Nat) (now : Instant) : List Move := List.replicate n (.step i (exampleAnswers now "u"))

/-- The generations of the checkpoints of a history, latest first. -/
def checkpointGenerations (h : History) : List Nat := (h.past.filterMap checkpointLease).map (·.generation)

/-- One worker's checkpoint, with nobody else about. -/
theorem checkpoints_fenced_alone :
    ∃ h, checkpointGenerations h = [1] ∧ Admitted Fenced h.past ∧ Admitted NotSuperseded h.past := by
  let moves := Move.start (attempt "w1" 1 1000000000) :: stepsAt 0 11 1001000000
  obtain ⟨ps, run⟩ := play_run (fun _ => True) trivial moves lateHunt
  exact ⟨_, by decide, checkpoints_fenced run (by decide)⟩

/-- A worker checks its lease; the lease expires and another worker claims the job and stores a
checkpoint; then the first one stores its own. -/
def overtaken : List Move :=
  Move.start (attempt "w1" 1 1000000000) :: stepsAt 0 10 1001000000 ++
    .start (.call_jobs exampleService.jobs (.recover_expired 1060000000)) :: stepsAt 0 1 1060000000 ++
    .start (.call_jobs exampleService.jobs (.claim "w2" none 0 1060000000)) :: stepsAt 0 1 1060000000 ++
    .start (attempt "w2" 2 1060000000) :: stepsAt 0 11 1061000000 ++ stepsAt 3 1 1061000000

/-- A superseded worker overwrites the checkpoint of the worker that holds the lease. -/
theorem superseded_worker_overwrites_checkpoint :
    ∃ h ps, Pool.Run (Clients exampleHelpers fun _ => True) lateHunt h ps ∧
      checkpointGenerations h = [1, 2] ∧ ¬Admitted Fenced h.past ∧ ¬Admitted NotSuperseded h.past := by
  obtain ⟨ps, run⟩ := play_run (fun _ => True) trivial overtaken lateHunt
  exact ⟨_, ps, run, by decide, by decide, by decide⟩

end

end WorkflowService

end ThreatHunting
