import ThreatHunting.Domain.Common
import ThreatHunting.Lib.Fallible

/-!
# ThreatHunting.Services.Jobs

The durable queue of `services/jobs.py`: the table `execution_jobs` and the methods of
`JobService`, each of which is one transaction on it. A method takes the time it reads
from the clock as `now`.
-/

namespace ThreatHunting

/-- The statuses a job row takes. -/
inductive JobStatus
  | queued | claimed | completed | failed | cancelled
  deriving DecidableEq, Repr

/-- The statuses `complete` accepts. -/
def JobStatus.terminal : JobStatus → Bool
  | .completed | .failed | .cancelled => true
  | .queued | .claimed => false

/-- What `execute` puts into a job. -/
structure JobPayload where
  hunt_id : Uuid
  plan_version : Option Nat
  plan_sha256 : String
  execution_config_snapshot_id : Option Uuid
  execution_config_sha256 : Option String
  deriving DecidableEq, Repr

/-- A row of `execution_jobs`. -/
structure Job where
  job_id : Uuid
  hunt_id : Uuid
  owner_id : String
  deployment_scope_id : String
  status : JobStatus
  worker_id : Option String
  lease_expires_at_utc : Option Instant
  heartbeat_at_utc : Option Instant
  attempts : Nat
  idempotency_key : String
  payload : Option JobPayload
  cancel_requested : Bool
  last_error : Option String
  created_at_utc : Instant
  updated_at_utc : Instant
  deriving DecidableEq, Repr

/-- `JobLease`, without its process-local cancellation signal. -/
structure JobLease where
  job_id : Uuid
  hunt_id : Uuid
  owner_id : String
  deployment_scope_id : String
  worker_id : String
  generation : Nat
  expires_at : Instant
  deriving DecidableEq, Repr

/-- The table `execution_jobs`, with its primary key and its unique column. -/
structure JobTable where
  rows : List Job
  job_ids : (rows.map Job.job_id).Nodup
  idempotency_keys : (rows.map Job.idempotency_key).Nodup

/-- New values for some columns of a row, none of them a key. -/
structure JobPatch where
  set : Job → Job
  job_id : ∀ j, (set j).job_id = j.job_id
  idempotency_key : ∀ j, (set j).idempotency_key = j.idempotency_key

namespace JobTable

def empty : JobTable := ⟨[], by simp, by simp⟩

/-- The row with a given primary key. -/
def find (t : JobTable) (job_id : Uuid) : Option Job := t.rows.find? (·.job_id == job_id)

/-- `UPDATE execution_jobs SET … WHERE …`. -/
def update (t : JobTable) (where_ : Job → Bool) (patch : JobPatch) : JobTable where
  rows := t.rows.map fun j => if where_ j then patch.set j else j
  job_ids := by
    have h : (t.rows.map fun j => if where_ j then patch.set j else j).map Job.job_id
        = t.rows.map Job.job_id := by
      rw [List.map_map]
      refine List.map_congr_left fun j _ => ?_
      simp only [Function.comp]
      split
      · exact patch.job_id j
      · rfl
    rw [h]
    exact t.job_ids
  idempotency_keys := by
    have h : (t.rows.map fun j => if where_ j then patch.set j else j).map Job.idempotency_key
        = t.rows.map Job.idempotency_key := by
      rw [List.map_map]
      refine List.map_congr_left fun j _ => ?_
      simp only [Function.comp]
      split
      · exact patch.idempotency_key j
      · rfl
    rw [h]
    exact t.idempotency_keys

/-- How many rows a condition selects (`rowcount`). -/
def count (t : JobTable) (where_ : Job → Bool) : Nat := t.rows.countP where_

/-- `INSERT INTO execution_jobs`, refused where it would break a key. -/
def insert (t : JobTable) (j : Job) : Option JobTable :=
  if h : (t.rows.map Job.job_id).contains j.job_id = false ∧
      (t.rows.map Job.idempotency_key).contains j.idempotency_key = false then
    some {
      rows := t.rows ++ [j]
      job_ids := by
        rw [List.map_append, List.nodup_append]
        refine ⟨t.job_ids, by simp, ?_⟩
        intro a ha b hb
        have hab : b = j.job_id := by simpa using hb
        rintro rfl
        rw [hab] at ha
        simp [ha] at h
      idempotency_keys := by
        rw [List.map_append, List.nodup_append]
        refine ⟨t.idempotency_keys, by simp, ?_⟩
        intro a ha b hb
        have hab : b = j.idempotency_key := by simpa using hb
        rintro rfl
        rw [hab] at ha
        simp [ha] at h }
  else none

end JobTable

/-- `JobService`: one process's view of the queue. -/
structure JobService where
  lease_seconds : Nat
  deployment_scope_id : String
  max_active_hunts : Option Nat
  lease_pos : 0 < lease_seconds
  max_active_pos : ∀ n ∈ max_active_hunts, 0 < n
  deriving DecidableEq

namespace JobService

/-- The lease a service takes by default passes its own check. -/
theorem default_lease_pos : 0 < 60 := by decide

variable (svc : JobService)

/-- `deployment_scope_id or self.deployment_scope_id`. -/
def scope (deployment_scope_id : Option String) : String :=
  match deployment_scope_id with
  | some s => if s = "" then svc.deployment_scope_id else s
  | none => svc.deployment_scope_id

/-- `enqueue`: the job stored under the idempotency key, inserted if there is none. -/
def enqueue (job_id owner_id hunt_id idempotency_key : String) (payload : Option JobPayload)
    (deployment_scope_id : Option String) (now : Instant) (t : JobTable) : Except Fault (JobTable × Job) :=
  match t.rows.find? (·.idempotency_key == idempotency_key) with
  | some existing => .ok (t, existing)
  | none =>
      let values : Job := {
        job_id, hunt_id, owner_id, deployment_scope_id := svc.scope deployment_scope_id
        status := .queued, worker_id := none, lease_expires_at_utc := none
        heartbeat_at_utc := none, attempts := 0, idempotency_key, payload
        cancel_requested := false, last_error := none, created_at_utc := now, updated_at_utc := now }
      match t.insert values with
      | some t' => .ok (t', values)
      | none => .error .integrity_error

/-- The hunts with a claimed job in a deployment scope, as `claim` counts them. -/
def activeHunts (t : JobTable) (scope : String) : List Uuid :=
  ((t.rows.filter fun j => j.status == .claimed && j.deployment_scope_id == scope).map Job.hunt_id).dedup

/-- The rows `claim` may take: queued, not cancelled, in scope. -/
def claimable (scope : String) (j : Job) : Bool :=
  j.status == .queued && !j.cancel_requested && j.deployment_scope_id == scope

/-- The claimable rows with the least creation time; the database may return any of them. -/
def oldest (t : JobTable) (scope : String) : List Job :=
  let queued := t.rows.filter (claimable scope)
  queued.filter fun j => queued.all fun k => j.created_at_utc ≤ k.created_at_utc

/-- The columns a claim sets. -/
def claimPatch (worker_id : String) (now expiry : Instant) : JobPatch where
  set j := { j with
    status := .claimed, worker_id := some worker_id, lease_expires_at_utc := some expiry
    heartbeat_at_utc := some now, attempts := j.attempts + 1, updated_at_utc := now }
  job_id _ := rfl
  idempotency_key _ := rfl

/-- `claim`. Among rows created at the same time, `tie` says which one the database returns. -/
def claim (worker_id : String) (deployment_scope_id : Option String) (tie : Nat) (now : Instant)
    (t : JobTable) : JobTable × Option JobLease :=
  let expiry := now + seconds svc.lease_seconds
  let scope := svc.scope deployment_scope_id
  if svc.max_active_hunts.any fun limit => limit ≤ (activeHunts t scope).length then (t, none)
  else
    match (oldest t scope)[tie]? <|> (oldest t scope).head? with
    | none => (t, none)
    | some row =>
        (t.update (fun j => j.job_id == row.job_id && claimable scope j) (claimPatch worker_id now expiry),
          some ⟨row.job_id, row.hunt_id, row.owner_id, row.deployment_scope_id, worker_id,
            row.attempts + 1, expiry⟩)

/-- `require_lease`: the live claim of one worker, or the reason there is none. -/
def require_lease (job_id worker_id : String) (generation : Option Nat)
    (deployment_scope_id : Option String) (now : Instant) (t : JobTable) : Except Fault Job :=
  match t.find job_id with
  | none => .error (.job_conflict "job lease is missing or owned by another worker")
  | some row =>
      if row.status ≠ .claimed ∨ row.worker_id ≠ some worker_id ∨ row.cancel_requested then
        .error (.job_conflict "job lease is missing or owned by another worker")
      else if generation.any (· ≠ row.attempts) then
        .error (.job_conflict "job lease generation is fenced")
      else if deployment_scope_id.any (· ≠ row.deployment_scope_id) then
        .error (.job_conflict "job deployment scope does not match worker scope")
      else if row.lease_expires_at_utc.all (· ≤ now) then
        .error (.job_conflict "job lease has expired")
      else .ok row

/-- The rows a lease may still write: `heartbeat` and `complete` share this condition. -/
def leased (lease : JobLease) (now : Instant) (j : Job) : Bool :=
  j.job_id == lease.job_id && j.worker_id == some lease.worker_id && j.status == .claimed &&
    !j.cancel_requested && j.attempts == lease.generation &&
    j.deployment_scope_id == lease.deployment_scope_id && j.lease_expires_at_utc.any (now < ·)

/-- `heartbeat`. -/
def heartbeat (lease : JobLease) (now : Instant) (t : JobTable) : Except Fault (JobTable × JobLease) :=
  let expiry := now + seconds svc.lease_seconds
  let patch : JobPatch := {
    set := fun j => { j with
      lease_expires_at_utc := some expiry, heartbeat_at_utc := some now, updated_at_utc := now }
    job_id := fun _ => rfl
    idempotency_key := fun _ => rfl }
  if t.count (leased lease now) = 1 then
    .ok (t.update (leased lease now) patch, { lease with expires_at := expiry })
  else .error (.job_conflict "job lease is missing, expired, or cancelled")

/-- The columns that end a lease. -/
def endPatch (status : JobStatus) (cancel_requested : Bool → Bool) (last_error : Option String → Option String)
    (now : Instant) : JobPatch where
  set j := { j with
    status, cancel_requested := cancel_requested j.cancel_requested, worker_id := none
    lease_expires_at_utc := none, heartbeat_at_utc := none, last_error := last_error j.last_error
    updated_at_utc := now }
  job_id _ := rfl
  idempotency_key _ := rfl

/-- `complete`. -/
def complete (lease : JobLease) (status : JobStatus) (error : Option String) (now : Instant)
    (t : JobTable) : Except Fault JobTable :=
  if status.terminal = false then .error (.value_error "invalid terminal job status")
  else if t.count (leased lease now) = 1 then
    .ok (t.update (leased lease now) (endPatch status id (fun _ => error) now))
  else .error (.job_conflict "job is no longer owned by this worker")

/-- The rows `request_cancel` ends. -/
def cancellable (owner_id hunt_id : String) (j : Job) : Bool :=
  j.owner_id == owner_id && j.hunt_id == hunt_id && (j.status == .queued || j.status == .claimed)

/-- `request_cancel`: the table, and how many jobs were cancelled. -/
def request_cancel (owner_id hunt_id : String) (now : Instant) (t : JobTable) : JobTable × Nat :=
  (t.update (cancellable owner_id hunt_id) (endPatch .cancelled (fun _ => true) id now),
    t.count (cancellable owner_id hunt_id))

/-- The claimed rows whose lease has run out. -/
def expired (now : Instant) (j : Job) : Bool :=
  j.status == .claimed && j.lease_expires_at_utc.any (· ≤ now) && !j.cancel_requested

/-- `recover_expired`: the table, and how many jobs went back to the queue. -/
def recover_expired (now : Instant) (t : JobTable) : JobTable × Nat :=
  (t.update (expired now) (endPatch .queued id id now), t.count (expired now))

end JobService

end ThreatHunting
