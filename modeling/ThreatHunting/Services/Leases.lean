import ThreatHunting.Lib.Fence
import ThreatHunting.Services.Jobs

/-!
# ThreatHunting.Services.Leases

Lease fencing of the job queue. Each row of `execution_jobs` is read as a fenced lease
(`Job.cell`), every method of `JobService` moves every row's lease by one step of
`Fence.Step`, and the fencing laws follow for every sequence of calls, by any workers
and at any clock readings.
-/

namespace ThreatHunting

open JobService

/-! ### Calls and their effect -/

/-- One call of a `JobService` method. -/
inductive JobCall
  | enqueue (job_id owner_id hunt_id idempotency_key : String) (payload : Option JobPayload)
      (deployment_scope_id : Option String) (now : Instant)
  | claim (worker_id : String) (deployment_scope_id : Option String) (tie : Nat) (now : Instant)
  | heartbeat (lease : JobLease) (now : Instant)
  | complete (lease : JobLease) (status : JobStatus) (error : Option String) (now : Instant)
  | request_cancel (owner_id hunt_id : String) (now : Instant)
  | recover_expired (now : Instant)
  | require_lease (job_id worker_id : String) (generation : Nat)
      (deployment_scope_id : Option String) (now : Instant)

namespace JobCall

/-- The table after a call. A call that raises leaves it alone. -/
def apply (svc : JobService) : JobCall → JobTable → JobTable
  | .enqueue job_id owner_id hunt_id key payload scope now, t =>
      match svc.enqueue job_id owner_id hunt_id key payload scope now t with
      | .ok (t', _) => t'
      | .error _ => t
  | .claim worker_id scope tie now, t => (svc.claim worker_id scope tie now t).1
  | .heartbeat lease now, t =>
      match svc.heartbeat lease now t with
      | .ok (t', _) => t'
      | .error _ => t
  | .complete lease status error now, t =>
      match JobService.complete lease status error now t with
      | .ok t' => t'
      | .error _ => t
  | .request_cancel owner_id hunt_id now, t => (JobService.request_cancel owner_id hunt_id now t).1
  | .recover_expired now, t => (JobService.recover_expired now t).1
  | .require_lease _ _ _ _ _, t => t

/-- The job, worker and generation a fenced call acts with. -/
def credentials : JobCall → Option (Uuid × String × Nat)
  | .heartbeat lease _ | .complete lease _ _ _ => some (lease.job_id, lease.worker_id, lease.generation)
  | .require_lease job_id worker_id generation _ _ => some (job_id, worker_id, generation)
  | _ => none

/-- The call returns, rather than raises. -/
def Succeeds (svc : JobService) : JobCall → JobTable → Prop
  | .heartbeat lease now, t => ∃ r, svc.heartbeat lease now t = .ok r
  | .complete lease status error now, t => ∃ r, JobService.complete lease status error now t = .ok r
  | .require_lease job_id worker_id generation scope now, t =>
      ∃ r, JobService.require_lease job_id worker_id (some generation) scope now t = .ok r
  | _, _ => True

/-- The call is a `claim` that returns a lease of the job. -/
def Claims (svc : JobService) (t : JobTable) (job_id : Uuid) : JobCall → Prop
  | .claim worker_id scope tie now => ∃ lease, (svc.claim worker_id scope tie now t).2 = some lease ∧
      lease.job_id = job_id
  | _ => False

instance (svc : JobService) (t : JobTable) (job_id : Uuid) (call : JobCall) :
    Decidable (call.Claims svc t job_id) :=
  match call with
  | .claim worker_id scope tie now =>
      decidable_of_iff (((svc.claim worker_id scope tie now t).2.any (·.job_id = job_id)) = true)
        (by simp [Claims, Option.any_eq_true])
  | .enqueue .. | .heartbeat .. | .complete .. | .request_cancel .. | .recover_expired .. | .require_lease .. =>
      isFalse (by simp [Claims])

/-- The call completes or cancels the job. -/
def Ends (t : JobTable) (job_id : Uuid) : JobCall → Prop
  | .complete lease status error now => lease.job_id = job_id ∧
      ∃ r, JobService.complete lease status error now t = .ok r
  | .request_cancel owner_id hunt_id _ => ∃ j, t.find job_id = some j ∧ cancellable owner_id hunt_id j
  | _ => False

end JobCall

/-- The table after a sequence of calls, each made through some service. -/
def runCalls : List (JobService × JobCall) → JobTable → JobTable
  | [], t => t
  | (svc, call) :: calls, t => runCalls calls (call.apply svc t)

/-- The lease generation of a job. -/
def JobTable.generation (t : JobTable) (job_id : Uuid) : Option Nat := (t.find job_id).map Job.attempts

/-- The worker holds the job under the generation. -/
def Held (t : JobTable) (job_id : Uuid) (worker_id : String) (generation : Nat) : Prop :=
  ∃ j, t.find job_id = some j ∧ j.status = .claimed ∧ j.worker_id = some worker_id ∧
    j.attempts = generation

/-- Some `heartbeat`, `complete` or `require_lease` by the pair succeeds on the job. -/
def CanUse (t : JobTable) (job_id : Uuid) (worker_id : String) (generation : Nat) : Prop :=
  ∃ (svc : JobService) (call : JobCall),
    call.credentials = some (job_id, worker_id, generation) ∧ call.Succeeds svc t

/-! ### The table as a map -/

namespace JobTable

variable {t : JobTable} {job_id : Uuid} {j : Job}

theorem find_eq_some : t.find job_id = some j ↔ j ∈ t.rows ∧ j.job_id = job_id := by
  constructor
  · intro h
    exact ⟨List.mem_of_find?_eq_some h, by simpa using List.find?_some h⟩
  · rintro ⟨hj, rfl⟩
    unfold find
    cases hf : t.rows.find? (·.job_id == j.job_id) with
    | none =>
        have := List.find?_eq_none.mp hf j hj
        simp at this
    | some k =>
        have hk : k.job_id = j.job_id := by simpa using List.find?_some hf
        rw [List.inj_on_of_nodup_map t.job_ids (List.mem_of_find?_eq_some hf) hj hk]

theorem mem_update {where_ : Job → Bool} {patch : JobPatch} {k : Job} :
    k ∈ (t.update where_ patch).rows ↔ ∃ j ∈ t.rows, (if where_ j then patch.set j else j) = k :=
  List.mem_map

theorem find_update {where_ : Job → Bool} {patch : JobPatch} (h : t.find job_id = some j) :
    (t.update where_ patch).find job_id = some (if where_ j then patch.set j else j) := by
  obtain ⟨hj, rfl⟩ := find_eq_some.mp h
  refine find_eq_some.mpr ⟨mem_update.mpr ⟨j, hj, rfl⟩, ?_⟩
  by_cases hw : where_ j = true
  · simp [hw, patch.job_id]
  · simp [hw]

theorem find_insert {k : Job} {t' : JobTable} (hi : t.insert k = some t') (h : t.find job_id = some j) :
    t'.find job_id = some j := by
  unfold insert at hi
  split at hi
  · cases hi
    obtain ⟨hj, hid⟩ := find_eq_some.mp h
    exact find_eq_some.mpr ⟨List.mem_append_left _ hj, hid⟩
  · cases hi

theorem exists_of_count {where_ : Job → Bool} (h : t.count where_ = 1) : ∃ j ∈ t.rows, where_ j := by
  have hpos : 0 < t.rows.countP where_ := by
    show 0 < t.count where_
    omega
  exact List.countP_pos_iff.mp hpos

end JobTable

/-! ### Rows as fenced leases -/

/-- A job row, read as a fenced lease. -/
def Job.cell (j : Job) : Fence.Cell String where
  generation := j.attempts
  holder := if j.status = .claimed then j.worker_id else none
  closed := j.status.terminal

theorem Job.sound_cell (j : Job) : Fence.Sound j.cell := by
  intro h
  cases hs : j.status <;> simp_all [Job.cell, JobStatus.terminal]

theorem held_iff {t : JobTable} {job_id : Uuid} {w : String} {g : Nat} :
    Held t job_id w g ↔ ∃ j, t.find job_id = some j ∧ Fence.Holds j.cell w g := by
  unfold Held Fence.Holds
  constructor
  · rintro ⟨j, hj, hs, hw, hg⟩
    exact ⟨j, hj, by simp [Job.cell, hs, hw], hg⟩
  · rintro ⟨j, hj, hw, hg⟩
    simp only [Job.cell] at hw hg
    split at hw
    next hs => exact ⟨j, hj, hs, hw, hg⟩
    next => cases hw

theorem leased_iff {lease : JobLease} {now : Instant} {j : Job} (h : leased lease now j = true) :
    j.job_id = lease.job_id ∧ j.worker_id = some lease.worker_id ∧ j.status = .claimed ∧
      j.attempts = lease.generation := by
  simp only [leased, Bool.and_eq_true, beq_iff_eq] at h
  exact ⟨h.1.1.1.1.1.1, h.1.1.1.1.1.2, h.1.1.1.1.2, h.1.1.2⟩

/-- What a `complete` that returns has done. -/
theorem complete_eq_ok {lease : JobLease} {status : JobStatus} {error : Option String} {now : Instant}
    {t t' : JobTable} (h : complete lease status error now t = .ok t') :
    status.terminal = true ∧ t.count (leased lease now) = 1 ∧
      t' = t.update (leased lease now) (endPatch status id (fun _ => error) now) := by
  unfold complete at h
  split at h
  · cases h
  next hterm =>
    split at h
    next hcount =>
      cases h
      exact ⟨by simpa using hterm, hcount, rfl⟩
    next => cases h

/-- What a `heartbeat` that returns has done. -/
theorem heartbeat_eq_ok {svc : JobService} {lease lease' : JobLease} {now : Instant} {t t' : JobTable}
    (h : svc.heartbeat lease now t = .ok (t', lease')) :
    t.count (leased lease now) = 1 ∧
      ∃ patch, t' = t.update (leased lease now) patch ∧ ∀ j, (patch.set j).attempts = j.attempts ∧
        (patch.set j).status = j.status ∧ (patch.set j).worker_id = j.worker_id := by
  unfold heartbeat at h
  simp only at h
  split at h
  next hcount =>
    cases h
    exact ⟨hcount, _, rfl, fun _ => ⟨rfl, rfl, rfl⟩⟩
  next => cases h

/-- An `enqueue` that returns has left the table alone or inserted one row. -/
theorem enqueue_eq_ok {svc : JobService} {job_id owner hunt key : String} {payload : Option JobPayload}
    {scope : Option String} {now : Instant} {t t' : JobTable} {j : Job}
    (h : svc.enqueue job_id owner hunt key payload scope now t = .ok (t', j)) :
    t' = t ∨ t.insert j = some t' := by
  unfold enqueue at h
  split at h
  next => cases h; exact .inl rfl
  next =>
    simp only at h
    split at h
    next hi => cases h; exact .inr hi
    next => cases h

/-- A live lease check passes only for the row's own worker and generation. -/
theorem require_lease_ok {job_id worker_id : String} {g : Nat} {scope : Option String} {now : Instant}
    {t : JobTable} {j : Job} (h : require_lease job_id worker_id (some g) scope now t = .ok j) :
    t.find job_id = some j ∧ j.status = .claimed ∧ j.worker_id = some worker_id ∧ j.attempts = g := by
  unfold require_lease at h
  cases hf : t.find job_id with
  | none => simp [hf] at h
  | some row =>
      simp only [hf, Option.any_some] at h
      split at h
      · cases h
      next hrow =>
        split at h
        · cases h
        next hgen =>
          split at h
          · cases h
          split at h
          · cases h
          cases h
          simp only [ne_eq, not_or, not_not] at hrow
          exact ⟨rfl, hrow.1, hrow.2.1, by simpa using Eq.symm (by simpa using hgen)⟩

theorem CanUse.held {t : JobTable} {job_id : Uuid} {w : String} {g : Nat} (h : CanUse t job_id w g) :
    Held t job_id w g := by
  obtain ⟨svc, call, hcred, hok⟩ := h
  -- `heartbeat` and `complete` select the row by the same condition
  have of_count : ∀ {lease : JobLease} {now : Instant}, t.count (leased lease now) = 1 →
      Held t lease.job_id lease.worker_id lease.generation := by
    intro lease now hcount
    obtain ⟨j, hj, hl⟩ := JobTable.exists_of_count hcount
    obtain ⟨hid, hw, hs, hg⟩ := leased_iff hl
    exact ⟨j, JobTable.find_eq_some.mpr ⟨hj, hid⟩, hs, hw, hg⟩
  cases call with
  | heartbeat lease now =>
      cases hcred
      obtain ⟨r, hr⟩ := hok
      exact of_count (heartbeat_eq_ok hr).1
  | complete lease status error now =>
      cases hcred
      obtain ⟨r, hr⟩ := hok
      exact of_count (complete_eq_ok hr).2.1
  | require_lease id w' g' scope now =>
      cases hcred
      obtain ⟨j, hj⟩ := hok
      obtain ⟨hf, hs, hw, hg⟩ := require_lease_ok hj
      exact ⟨j, hf, hs, hw, hg⟩
  | enqueue | claim | request_cancel | recover_expired => cases hcred

/-! ### One call -/

section Calls

variable {svc : JobService} {t : JobTable} {job_id : Uuid} {j : Job}

/-- An update moves a row's lease as its patch does. -/
theorem step_update {where_ : Job → Bool} {patch : JobPatch} (h : t.find job_id = some j)
    (hp : where_ j = true → Fence.Step j.cell (patch.set j).cell) :
    ∃ j', (t.update where_ patch).find job_id = some j' ∧ Fence.Step j.cell j'.cell := by
  refine ⟨_, JobTable.find_update h, ?_⟩
  by_cases hw : where_ j = true
  · simpa only [hw, if_true] using hp hw
  · simpa only [hw, if_false] using .refl _

theorem grants_claimPatch {worker_id scope : String} {now expiry : Instant}
    (h : claimable scope j = true) :
    Fence.Grants j.cell ((claimPatch worker_id now expiry).set j).cell := by
  simp only [claimable, Bool.and_eq_true, beq_iff_eq] at h
  refine ⟨?_, ?_, worker_id, ?_⟩ <;> simp [Job.cell, claimPatch, h.1.1, JobStatus.terminal]

theorem closes_endPatch {status : JobStatus} {c : Bool → Bool} {e : Option String → Option String}
    {now : Instant} (h : status.terminal = true) :
    Fence.Closes j.cell ((endPatch status c e now).set j).cell := by
  cases status <;> simp_all [Fence.Closes, Job.cell, endPatch, JobStatus.terminal]

/-- What a claim that returns a lease has done. -/
theorem claim_eq_some {worker_id : String} {scope : Option String} {tie : Nat} {now : Instant}
    {lease : JobLease} (h : (svc.claim worker_id scope tie now t).2 = some lease) :
    ∃ row ∈ t.rows, claimable (svc.scope scope) row = true ∧ lease.job_id = row.job_id ∧
      lease.worker_id = worker_id ∧ lease.generation = row.attempts + 1 ∧
      (∀ limit ∈ svc.max_active_hunts, (activeHunts t (svc.scope scope)).length < limit) ∧
      (svc.claim worker_id scope tie now t).1 =
        t.update (fun j => j.job_id == row.job_id && claimable (svc.scope scope) j)
          (claimPatch worker_id now (now + seconds svc.lease_seconds)) := by
  unfold claim at h ⊢
  simp only at h ⊢
  split at h
  · cases h
  next hfull =>
    rw [if_neg hfull]
    cases hrow : ((oldest t (svc.scope scope))[tie]? <|> (oldest t (svc.scope scope)).head?) with
    | none => simp [hrow] at h
    | some row =>
        simp only [hrow, Option.some.injEq] at h
        subst h
        have hmem : row ∈ oldest t (svc.scope scope) := by
          cases htie : (oldest t (svc.scope scope))[tie]? with
          | none =>
              rw [htie] at hrow
              exact List.mem_of_mem_head? (by simpa using hrow)
          | some k =>
              rw [htie] at hrow
              cases hrow
              exact List.mem_of_getElem? htie
        simp only [oldest, List.mem_filter] at hmem
        refine ⟨row, hmem.1.1, hmem.1.2, rfl, rfl, rfl, ?_, rfl⟩
        intro limit hlimit
        simp only [Option.any_eq_true, decide_eq_true_eq, not_exists, not_and] at hfull
        exact Nat.lt_of_not_le (hfull limit hlimit)

theorem claim_eq_none {worker_id : String} {scope : Option String} {tie : Nat} {now : Instant}
    (h : (svc.claim worker_id scope tie now t).2 = none) :
    (svc.claim worker_id scope tie now t).1 = t := by
  unfold claim at h ⊢
  simp only at h ⊢
  split at h
  next hfull => rw [if_pos hfull]
  next hfull =>
    rw [if_neg hfull]
    cases hrow : ((oldest t (svc.scope scope))[tie]? <|> (oldest t (svc.scope scope)).head?) with
    | none => rfl
    | some row => simp [hrow] at h

/-- Every call moves every job's lease by one step of the fence. -/
theorem JobCall.step (svc : JobService) (call : JobCall) (h : t.find job_id = some j) :
    ∃ j', (call.apply svc t).find job_id = some j' ∧ Fence.Step j.cell j'.cell := by
  have same : ∃ j', t.find job_id = some j' ∧ Fence.Step j.cell j'.cell := ⟨j, h, .refl _⟩
  cases call with
  | enqueue id owner hunt key payload scope now =>
      simp only [apply]
      split
      next he =>
        rcases enqueue_eq_ok he with rfl | hi
        · exact same
        · exact ⟨j, JobTable.find_insert hi h, .refl _⟩
      next => exact same
  | claim worker_id scope tie now =>
      simp only [apply]
      cases hl : (svc.claim worker_id scope tie now t).2 with
      | none =>
          rw [claim_eq_none hl]
          exact same
      | some lease =>
          obtain ⟨row, -, -, -, -, -, -, ht⟩ := claim_eq_some hl
          rw [ht]
          refine step_update h fun hw => ?_
          have hc : claimable (svc.scope scope) j = true := by
            simp only [Bool.and_eq_true] at hw
            exact hw.2
          exact .grant (grants_claimPatch hc)
  | heartbeat lease now =>
      simp only [apply]
      split
      next hr =>
        obtain ⟨-, patch, rfl, hpatch⟩ := heartbeat_eq_ok hr
        refine step_update h fun _ => ?_
        obtain ⟨ha, hs, hw⟩ := hpatch j
        have hcell : (patch.set j).cell = j.cell := by simp only [Job.cell, ha, hs, hw]
        rw [hcell]
        exact .refl _
      next => exact same
  | complete lease status error now =>
      simp only [apply]
      split
      next hr =>
        obtain ⟨hterm, -, rfl⟩ := complete_eq_ok hr
        exact step_update h fun _ => .close (closes_endPatch hterm)
      next => exact same
  | request_cancel owner hunt now => exact step_update h fun _ => .close (closes_endPatch rfl)
  | recover_expired now =>
      refine step_update h fun hw => ?_
      simp only [expired, Bool.and_eq_true, beq_iff_eq] at hw
      have hcell : ((endPatch .queued id id now).set j).cell = ⟨j.cell.generation, none, j.cell.closed⟩ := by
        simp [Job.cell, endPatch, hw.1.1, JobStatus.terminal]
      rw [hcell]
      exact .release _
  | require_lease => exact same

/-- A claim of a job grants its lease. -/
theorem JobCall.Claims.grants {call : JobCall} (hc : call.Claims svc t job_id)
    (h : t.find job_id = some j) :
    ∃ j', (call.apply svc t).find job_id = some j' ∧ Fence.Grants j.cell j'.cell := by
  cases call with
  | claim worker_id scope tie now =>
      obtain ⟨lease, hl, rfl⟩ := hc
      obtain ⟨row, hrow, hcl, hid, -, -, -, ht⟩ := claim_eq_some hl
      have hj : row = j := by
        rw [hid] at h
        exact Option.some.inj ((JobTable.find_eq_some.mpr ⟨hrow, rfl⟩).symm.trans h)
      subst hj
      simp only [apply, ht]
      refine ⟨_, JobTable.find_update h, ?_⟩
      simpa only [beq_self_eq_true, hcl, Bool.and_self, if_true] using grants_claimPatch hcl
  | enqueue | heartbeat | complete | request_cancel | recover_expired | require_lease => exact hc.elim

/-- An update that does not touch a row's generation keeps it. -/
theorem generation_update {where_ : Job → Bool} {patch : JobPatch} (h : t.find job_id = some j)
    (hp : where_ j = true → (patch.set j).attempts = j.attempts) :
    (t.update where_ patch).generation job_id = some j.attempts := by
  unfold JobTable.generation
  rw [JobTable.find_update h]
  by_cases hw : where_ j = true
  · simp [hw, hp hw]
  · simp [hw]

/-- Only a claim of the job changes its generation. -/
theorem JobCall.generation_of_not_claims {call : JobCall} (hc : ¬call.Claims svc t job_id)
    (h : t.find job_id = some j) : (call.apply svc t).generation job_id = some j.attempts := by
  have same : t.generation job_id = some j.attempts := by simp [JobTable.generation, h]
  cases call with
  | enqueue id owner hunt key payload scope now =>
      simp only [apply]
      split
      next t' k hr =>
        rcases enqueue_eq_ok hr with rfl | hi
        · exact same
        · simp [JobTable.generation, JobTable.find_insert hi h]
      next => exact same
  | claim worker_id scope tie now =>
      simp only [apply]
      cases hl : (svc.claim worker_id scope tie now t).2 with
      | none =>
          rw [claim_eq_none hl]
          exact same
      | some lease =>
          obtain ⟨row, -, -, hid, -, -, -, ht⟩ := claim_eq_some hl
          rw [ht]
          refine generation_update h fun hw => ?_
          -- the row the claim takes is not this one
          simp only [Bool.and_eq_true, beq_iff_eq] at hw
          have hj : lease.job_id = job_id := by
            rw [hid, ← hw.1]
            exact (JobTable.find_eq_some.mp h).2
          exact absurd ⟨lease, hl, hj⟩ hc
  | heartbeat lease now =>
      simp only [apply]
      split
      next hr =>
        obtain ⟨-, patch, rfl, hpatch⟩ := heartbeat_eq_ok hr
        exact generation_update h fun _ => (hpatch j).1
      next => exact same
  | complete lease status error now =>
      simp only [apply]
      split
      next hr =>
        obtain ⟨-, -, rfl⟩ := complete_eq_ok hr
        exact generation_update h fun _ => rfl
      next => exact same
  | request_cancel owner hunt now => exact generation_update h fun _ => rfl
  | recover_expired now => exact generation_update h fun _ => rfl
  | require_lease => exact same

/-- A completion or cancellation of a job closes its lease. -/
theorem JobCall.Ends.closes (svc : JobService) {call : JobCall} (hc : call.Ends t job_id)
    (h : t.find job_id = some j) :
    ∃ j', (call.apply svc t).find job_id = some j' ∧ Fence.Closes j.cell j'.cell := by
  cases call with
  | complete lease status error now =>
      obtain ⟨rfl, r, hr⟩ := hc
      simp only [apply, hr]
      obtain ⟨hterm, hcount, rfl⟩ := complete_eq_ok hr
      obtain ⟨k, hk, hl⟩ := JobTable.exists_of_count hcount
      have hkj : k = j :=
        Option.some.inj ((JobTable.find_eq_some.mpr ⟨hk, (leased_iff hl).1⟩).symm.trans h)
      subst hkj
      refine ⟨_, JobTable.find_update h, ?_⟩
      simpa only [hl, if_true] using closes_endPatch hterm
  | request_cancel owner hunt now =>
      obtain ⟨k, hk, hcan⟩ := hc
      have hkj : k = j := Option.some.inj (hk.symm.trans h)
      subst hkj
      refine ⟨_, JobTable.find_update h, ?_⟩
      simpa only [hcan, if_true] using closes_endPatch rfl
  | enqueue | claim | heartbeat | recover_expired | require_lease => exact hc.elim

end Calls

/-! ### Any sequence of calls -/

/-- Any sequence of calls moves every job's lease by a run of the fence. -/
theorem runCalls_run (calls : List (JobService × JobCall)) :
    ∀ {t : JobTable} {job_id : Uuid} {j : Job}, t.find job_id = some j →
      ∃ j', (runCalls calls t).find job_id = some j' ∧ Fence.Run j.cell j'.cell := by
  induction calls with
  | nil => exact fun {t job_id j} h => ⟨j, h, .refl⟩
  | cons c calls ih =>
      intro t job_id j h
      obtain ⟨j₁, h₁, st⟩ := JobCall.step c.1 c.2 h
      obtain ⟨j₂, h₂, run⟩ := ih h₁
      exact ⟨j₂, h₂, .head st run⟩

/-- The hunts active in a scope after a claim: those before, and perhaps one more. -/
theorem length_activeHunts_claim {svc : JobService} {worker_id : String} {scope : Option String}
    {tie : Nat} {now : Instant} {t : JobTable} {lease : JobLease}
    (h : (svc.claim worker_id scope tie now t).2 = some lease) :
    (activeHunts (svc.claim worker_id scope tie now t).1 (svc.scope scope)).length
      ≤ (activeHunts t (svc.scope scope)).length + 1 := by
  obtain ⟨row, hrow, -, -, -, -, -, ht⟩ := claim_eq_some h
  rw [ht]
  have hsub : activeHunts (t.update (fun j => j.job_id == row.job_id && claimable (svc.scope scope) j)
      (claimPatch worker_id now (now + seconds svc.lease_seconds))) (svc.scope scope)
      ⊆ row.hunt_id :: activeHunts t (svc.scope scope) := by
    intro hunt hh
    simp only [activeHunts, List.mem_dedup, List.mem_map, List.mem_filter] at hh
    obtain ⟨k, ⟨hk, hactive⟩, rfl⟩ := hh
    obtain ⟨j, hj, rfl⟩ := JobTable.mem_update.mp hk
    by_cases hw : (j.job_id == row.job_id && claimable (svc.scope scope) j) = true
    · -- the claimed row itself
      have hjr : j = row := by
        simp only [Bool.and_eq_true, beq_iff_eq] at hw
        exact List.inj_on_of_nodup_map t.job_ids hj hrow hw.1
      rw [if_pos hw, hjr]
      exact List.mem_cons_self
    · rw [if_neg hw] at hactive ⊢
      refine List.mem_cons_of_mem _ ?_
      simp only [activeHunts, List.mem_dedup, List.mem_map, List.mem_filter]
      exact ⟨j, ⟨hj, hactive⟩, rfl⟩
  exact (List.subperm_of_subset (List.nodup_dedup _) hsub).length_le

/-- **Lease fencing.** After any sequence of calls from the empty queue: no call lowers a
job's generation and a claim raises it by one; at most one pair of worker and generation
can use a job; a lease superseded by a new claim, a completion or a cancellation is never
usable again; a job that has ended is never claimed; and a claim leaves at most
`max_active_hunts` hunts active in the deployment scope it claims from. -/
theorem lease_fencing (calls : List (JobService × JobCall)) :
    (∀ svc (call : JobCall) job_id g, (runCalls calls .empty).generation job_id = some g →
      ∃ g', (call.apply svc (runCalls calls .empty)).generation job_id = some g' ∧ g ≤ g' ∧
        (call.Claims svc (runCalls calls .empty) job_id → g' = g + 1)) ∧
    (∀ job_id w g w' g', CanUse (runCalls calls .empty) job_id w g →
      CanUse (runCalls calls .empty) job_id w' g' → w = w' ∧ g = g') ∧
    (∀ job_id w g, Held (runCalls calls .empty) job_id w g → ∀ before svc (call : JobCall) after,
      call.Claims svc (runCalls before (runCalls calls .empty)) job_id ∨
        call.Ends (runCalls before (runCalls calls .empty)) job_id →
      ∀ w', ¬CanUse (runCalls after (call.apply svc (runCalls before (runCalls calls .empty))))
        job_id w' g) ∧
    (∀ job_id j, (runCalls calls .empty).find job_id = some j → j.status.terminal = true →
      ∀ later svc (call : JobCall), ¬call.Claims svc (runCalls later (runCalls calls .empty)) job_id) ∧
    (∀ svc worker_id scope tie now lease,
      (JobService.claim svc worker_id scope tie now (runCalls calls .empty)).2 = some lease →
      Held (JobService.claim svc worker_id scope tie now (runCalls calls .empty)).1
        lease.job_id worker_id lease.generation ∧
      ∀ limit ∈ svc.max_active_hunts,
        (activeHunts (JobService.claim svc worker_id scope tie now (runCalls calls .empty)).1
          (svc.scope scope)).length ≤ limit) := by
  refine ⟨?_, ?_, ?_, ?_, ?_⟩
  · intro svc call job_id g hg
    simp only [JobTable.generation, Option.map_eq_some_iff] at hg ⊢
    obtain ⟨j, hj, rfl⟩ := hg
    obtain ⟨j', hj', st⟩ := call.step svc hj
    refine ⟨j'.attempts, ⟨j', hj', rfl⟩, st.generation_le, ?_⟩
    intro hc
    obtain ⟨k, hk, -, -, w, hcell⟩ := hc.grants hj
    have hkj : k = j' := Option.some.inj (hk.symm.trans hj')
    subst hkj
    exact congrArg Fence.Cell.generation hcell
  · intro job_id w g w' g' hu hu'
    obtain ⟨j, hj, hh⟩ := held_iff.mp hu.held
    obtain ⟨j', hj', hh'⟩ := held_iff.mp hu'.held
    have hjj : j' = j := Option.some.inj (hj'.symm.trans hj)
    subst hjj
    exact hh.unique hh'
  · intro job_id w g hheld before svc call after hsup w' hu
    obtain ⟨j, hj, hh⟩ := held_iff.mp hheld
    obtain ⟨j₁, hj₁, run₁⟩ := runCalls_run before hj
    have hstep : ∃ j₂, (call.apply svc (runCalls before (runCalls calls .empty))).find job_id = some j₂ ∧
        (Fence.Grants j₁.cell j₂.cell ∨ Fence.Closes j₁.cell j₂.cell) := by
      rcases hsup with hc | he
      · obtain ⟨j₂, hj₂, hg⟩ := hc.grants hj₁
        exact ⟨j₂, hj₂, .inl hg⟩
      · obtain ⟨j₂, hj₂, hcl⟩ := he.closes svc hj₁
        exact ⟨j₂, hj₂, .inr hcl⟩
    obtain ⟨j₂, hj₂, hmoved⟩ := hstep
    obtain ⟨j₃, hj₃, run₃⟩ := runCalls_run after hj₂
    obtain ⟨k, hk, hholds⟩ := held_iff.mp hu.held
    have hkj : k = j₃ := Option.some.inj (hk.symm.trans hj₃)
    subst hkj
    exact Fence.not_holds_of_superseded j.sound_cell hh run₁ hmoved run₃ hholds
  · intro job_id j hj hterm later svc call hc
    obtain ⟨j₁, hj₁, run⟩ := runCalls_run later hj
    obtain ⟨j₂, -, -, hopen, -⟩ := hc.grants hj₁
    have hclosed : j₁.cell.closed = true := run.closed hterm
    rw [hopen] at hclosed
    cases hclosed
  · intro svc worker_id scope tie now lease hl
    obtain ⟨row, hrow, hcl, hid, -, hgen, hlim, ht⟩ := claim_eq_some hl
    refine ⟨?_, ?_⟩
    · have hf := JobTable.find_eq_some.mpr ⟨hrow, rfl⟩
      rw [ht, hid, hgen]
      refine ⟨_, JobTable.find_update hf, ?_⟩
      simp [hcl, claimPatch]
    · intro limit hlimit
      exact Nat.le_trans (length_activeHunts_claim hl) (hlim limit hlimit)

/-- A service that admits one active hunt at a time. -/
def oneHuntService : JobService where
  lease_seconds := 60
  deployment_scope_id := "default"
  max_active_hunts := some 1
  lease_pos := by decide
  max_active_pos := by decide

/-- A lease that expires, is recovered and claimed by another worker is lost for good. -/
theorem lease_fencing_reclaimed :
    ¬CanUse (runCalls [
      (oneHuntService, .enqueue "j1" "o" "h1" "k1" none none 0),
      (oneHuntService, .claim "w1" none 0 0),
      (oneHuntService, .recover_expired 60000000),
      (oneHuntService, .claim "w2" none 0 60000000)] .empty) "j1" "w1" 1 := by
  have superseded := (lease_fencing [
    (oneHuntService, .enqueue "j1" "o" "h1" "k1" none none 0),
    (oneHuntService, .claim "w1" none 0 0)]).2.2.1 "j1" "w1" 1 ⟨_, rfl, rfl, rfl, rfl⟩
  exact superseded [(oneHuntService, .recover_expired 60000000)] oneHuntService
    (.claim "w2" none 0 60000000) [] (.inl ⟨_, rfl, rfl⟩) "w1"

/-- The limit is kept per deployment scope: the same service, asked for jobs of two scopes,
has two hunts claimed at once although it admits one. -/
theorem two_scopes_exceed_max_active_hunts :
    let t := runCalls [
      (oneHuntService, .enqueue "j1" "o" "h1" "k1" none (some "east") 0),
      (oneHuntService, .enqueue "j2" "o" "h2" "k2" none (some "west") 0),
      (oneHuntService, .claim "w" (some "east") 0 0)] .empty
    oneHuntService.max_active_hunts = some 1 ∧
      (oneHuntService.claim "w" (some "west") 0 0 t).2.isSome = true ∧
      ((((oneHuntService.claim "w" (some "west") 0 0 t).1.rows.filter
        (·.status == .claimed)).map Job.hunt_id).dedup).length = 2 := by
  decide +kernel

end ThreatHunting
