import ThreatHunting.Domain.Common
import ThreatHunting.Domain.State
import ThreatHunting.Lib.Procedure

/-!
# ThreatHunting.Services.Retention

`RetentionService.cleanup_hunt`, for one hunt. An attempt claims the hunt's cleanup task, checks
under the hunt's lock that the hunt is due, and then removes its files and empties its tables, one
transaction after another, saving in the task how far it has come. The lock is released with the
transaction that checked, so that the hunt may be worked on between any two of the deletions.
-/

namespace ThreatHunting

open Store

namespace Retention

/-! ### The hunt's tables -/

/-- The tables of a hunt's artifacts. -/
inductive Table
  | workspace_artifacts | uploads | upload_quotas | intelligence_inputs | evidence_records | entities
  | entity_evidence | pivots | findings | hunt_notes | query_ledger | reports | hunt_snapshots
  | audit_records
  deriving DecidableEq

/-- What is deleted: the rows of a table, and the hunt itself. -/
inductive Artifact
  | rows (table : Table)
  | hunt
  deriving DecidableEq

/-- `ARTIFACTS`. -/
def ARTIFACTS : List Artifact :=
  [.rows .workspace_artifacts, .rows .uploads, .rows .upload_quotas, .rows .intelligence_inputs,
    .rows .evidence_records, .rows .entities, .rows .entity_evidence, .rows .pivots, .rows .findings,
    .rows .hunt_notes, .rows .query_ledger, .rows .reports, .rows .hunt_snapshots, .rows .audit_records,
    .hunt]

/-- `RetentionPolicy`. -/
structure RetentionPolicy where
  hunt_days : Nat := 90
  abandoned_days : Nat := 7
  temporary_result_hours : Nat := 24
  positive : 0 < hunt_days ∧ 0 < abandoned_days ∧ 0 < temporary_result_hours := by decide

/-- The row of `hunts`. -/
structure HuntRecord where
  owner_id : String
  state : HuntState
  updated_at : Instant
  lease_expires_at : Option Instant
  deriving DecidableEq

/-- What the cleanup writes of itself into `audit_records`. -/
structure CleanupAudit where
  audit_id : Uuid
  outcome : String
  detail : String
  timestamp_utc : Instant
  deriving DecidableEq

/-- A row of an artifact table that carries the hunt's id: its owner, if it has one, the
`storage_path` of an upload or the `pdf_path` of a report, and the content of the cleanup's own
audit records. -/
structure ArtifactRow where
  owner_id : Option String
  path : Option String := none
  cleanup : Option CleanupAudit := none
  deriving DecidableEq

/-- The states of a cleanup task. -/
inductive TaskState
  | pending | running | completed
  deriving DecidableEq

/-- A row of `retention_cleanup_tasks`. -/
structure CleanupTask where
  task_id : Uuid
  owner_id : String
  state : TaskState
  cursor : Nat
  attempts : Nat
  error : Option String
  claimed_at_utc : Option Instant
  completed_at_utc : Option Instant
  created_at_utc : Instant
  updated_at_utc : Instant
  deriving DecidableEq

/-- The rows of one hunt. There is at most one report of a hunt. -/
structure Rows where
  of : Table → List ArtifactRow
  one_report : (of .reports).length ≤ 1

namespace Rows

/-- The rows that are not this owner's. -/
def delete (rows : Rows) (table : Table) (owner_id : String) : Rows where
  of t := if t = table then (rows.of t).filter (·.owner_id ≠ some owner_id) else rows.of t
  one_report := by
    have hone := rows.one_report
    split
    · exact (List.length_filter_le _ _).trans hone
    · exact hone

/-- One more audit record. -/
def audit (rows : Rows) (row : ArtifactRow) : Rows where
  of t := if t = .audit_records then row :: rows.of t else rows.of t
  one_report := by simpa using rows.one_report

end Rows

/-- The time, and what is stored of the hunt: its row, its artifacts, the files of the store, and its
cleanup task. -/
structure Database where
  time : Instant
  hunt : Option HuntRecord
  rows : Rows
  files : String → Bool
  task : Option CleanupTask

/-- What may change besides the task, and when. -/
structure Activity where
  time : Instant
  hunt : Option HuntRecord
  rows : Rows
  files : String → Bool

/-! ### Due hunts -/

/-- `HuntRetentionSnapshot`. -/
structure HuntRetentionSnapshot where
  owner_id : String
  state : HuntState
  updated_at : Instant
  active_worker : Bool := false
  active_external_job : Bool := false

/-- `terminal`. -/
def HuntRetentionSnapshot.terminal (snapshot : HuntRetentionSnapshot) : Bool :=
  snapshot.state ∈ HuntState.terminalStates

/-- `timedelta(days=n)`. -/
def days (n : Nat) : Int := seconds (86400 * n)

section Due

variable (snapshot : HuntRetentionSnapshot) (now : Instant) (policy : RetentionPolicy)

/-- `is_abandoned`. -/
def is_abandoned : Bool :=
  if snapshot.terminal || snapshot.active_worker || snapshot.active_external_job then false
  else snapshot.updated_at + days policy.abandoned_days ≤ now

/-- `retention_due`. -/
def retention_due : Bool :=
  if snapshot.terminal then snapshot.updated_at + days policy.hunt_days ≤ now
  else is_abandoned snapshot now policy

/-- A hunt that is due stays due while nothing is done to it. -/
theorem retention_due_mono {snapshot : HuntRetentionSnapshot} {now later : Instant} {policy : RetentionPolicy}
    (h : retention_due snapshot now policy = true) (hle : now ≤ later) :
    retention_due snapshot later policy = true := by
  unfold retention_due is_abandoned at *
  cases hterminal : snapshot.terminal with
  | true =>
      simp only [hterminal, if_true, decide_eq_true_eq] at h ⊢
      exact h.trans hle
  | false =>
      cases hactive : snapshot.active_worker || snapshot.active_external_job with
      | true => simp [hterminal, hactive] at h
      | false =>
          simp only [hterminal, hactive, Bool.false_or, Bool.false_eq_true, if_false, decide_eq_true_eq] at h ⊢
          exact h.trans hle

end Due

/-- What `lock_hunt` returns of a hunt's row at this time. -/
def HuntRecord.snapshot (record : HuntRecord) (time : Instant) : HuntRetentionSnapshot where
  owner_id := record.owner_id
  state := record.state
  updated_at := record.updated_at
  active_worker := record.lease_expires_at.any (time < ·)

/-! ### Transactions -/

/-- `FileStore`: where a stored path leads, if it stays within the root, and what is removed with it. -/
structure FileStore where
  target : String → Option String
  covers : String → String → Bool
  covers_self : ∀ file, covers file file = true

/-- The transactions of the cleanup, and whatever else happens to the hunt. -/
inductive Access
  | claim_task (owner_id : String) (task_id : Uuid) (now : Instant)
  | lock_hunt (owner_id : String)
  | remove (gone : String → Bool)
  | delete_artifact (artifact : Artifact) (owner_id : String)
  | save_task_failure (task_id : Uuid) (cursor : Nat) (error : Option String) (now : Instant)
  | complete_task (task_id : Uuid) (now : Instant)
  | audit_cleanup (owner_id : String) (audit : CleanupAudit)
  | activity (after : Activity)

namespace Database

variable (s : Database)

/-- The task `claim_task` leaves, if it is the owner's: a new one, or the one there is. -/
def claimed (owner_id : String) (task_id : Uuid) (now : Instant) : Option CleanupTask :=
  match s.task with
  | none => some {
      task_id, owner_id
      state := .running, cursor := 0, attempts := 1, error := none, claimed_at_utc := none
      completed_at_utc := none, created_at_utc := now, updated_at_utc := now }
  | some task =>
      if task.owner_id = owner_id then
        some { task with
          state := .running, attempts := task.attempts + 1, claimed_at_utc := some now, updated_at_utc := now }
      else none

/-- What `lock_hunt` selects. -/
def locked (owner_id : String) : Option HuntRetentionSnapshot :=
  (s.hunt.filter (·.owner_id = owner_id)).map (·.snapshot s.time)

/-- `delete_artifact`. -/
def delete_artifact (owner_id : String) : Artifact → Database
  | .rows table => { s with rows := s.rows.delete table owner_id }
  | .hunt => { s with hunt := s.hunt.filter (·.owner_id ≠ owner_id) }

/-- The task changes, if it has this id. -/
def setTask (task_id : Uuid) (f : CleanupTask → CleanupTask) : Database :=
  { s with task := s.task.map fun task => if task.task_id = task_id then f task else task }

/-- Something else happens, and no earlier than now. -/
def act (after : Activity) : Option Database :=
  if s.time ≤ after.time then
    some { s with time := after.time, hunt := after.hunt, rows := after.rows, files := after.files }
  else none

end Database

/-- The effect of a transaction; `none` is a claim that finds another owner's task. -/
def Access.effect : Access → Database → Option Database
  | .claim_task owner_id task_id now, s =>
      (s.claimed owner_id task_id now).map fun task => { s with task := some task }
  | .lock_hunt _, s => some s
  | .remove gone, s => some { s with files := fun file => s.files file && !gone file }
  | .delete_artifact artifact owner_id, s => some (s.delete_artifact owner_id artifact)
  | .save_task_failure task_id cursor error now, s =>
      some (s.setTask task_id fun task => { task with cursor, error, updated_at_utc := now })
  | .complete_task task_id now, s =>
      some (s.setTask task_id fun task =>
        { task with state := .completed, completed_at_utc := some now, updated_at_utc := now })
  | .audit_cleanup owner_id audit, s =>
      some { s with rows := s.rows.audit { owner_id := some owner_id, cleanup := some audit } }
  | .activity after, s => s.act after

/-- How a call of the repository may fail: before its transaction is committed, or after. -/
inductive RepositoryFault
  | none
  | beforeCommit (message : String)
  | afterCommit (message : String)
  deriving DecidableEq

/-- What the cleanup asks: fresh ids, and which operations fail. A file operation that fails may have
removed some files. -/
inductive Ask
  | uuid4
  | repository_fault
  | remove_fails

/-- The type of each answer. -/
def Ask.Answer : Ask → Type
  | .uuid4 => Uuid
  | .repository_fault => RepositoryFault
  | .remove_fails => Option (String → Bool)

/-- The cleanup's questions and transactions. -/
def retentionSignature : Signature Database where
  Question := Ask
  Answer := Ask.Answer
  Transaction := Access
  effect := Access.effect

abbrev Event := Store.Event retentionSignature
abbrev History := Store.History retentionSignature

/-- A procedure of the cleanup, which remembers what it has deleted; exceptions are their texts. -/
abbrev Op (α : Type) := Proc retentionSignature (List Artifact) String α

/-! ### The cleanup -/

/-- The ways an attempt ends. -/
inductive CleanupStatus
  | already_missing | skipped_active | retryable_failure | deleted
  deriving DecidableEq

/-- `CleanupResult`. -/
structure CleanupResult where
  task_id : Uuid
  status : CleanupStatus
  deleted_artifacts : List Artifact := []
  error : Option String := none

/-- A running attempt. -/
abbrev Client := Program retentionSignature (Except String CleanupResult × List Artifact)

/-- A call of the repository that commits. -/
def call (t : Access) : Op (Database × Bool) := do
  let fault ← Proc.ask (S := retentionSignature) .repository_fault
  match (fault : RepositoryFault) with
  | .none => Proc.commit (S := retentionSignature) t
  | .beforeCommit message => Proc.throw message
  | .afterCommit message =>
      let _ ← Proc.commit (S := retentionSignature) t
      Proc.throw message

/-- A call of the repository that only reads. -/
def reading : Op Database := do
  let fault ← Proc.ask (S := retentionSignature) .repository_fault
  match (fault : RepositoryFault) with
  | .none => Proc.read
  | .beforeCommit message | .afterCommit message => Proc.throw message

/-- `claim_task`. -/
def claim_task (owner_id : String) (now : Instant) : Op CleanupTask := do
  let task_id ← Proc.ask (S := retentionSignature) .uuid4
  let (s, _) ← call (.claim_task owner_id task_id now)
  match s.claimed owner_id task_id now with
  | some task => pure task
  | none => Proc.throw "No row was found when one was required"

/-- `lock_hunt`. -/
def lock_hunt (owner_id : String) : Op (Option HuntRetentionSnapshot) := do
  let (s, _) ← call (.lock_hunt owner_id)
  pure (s.locked owner_id)

/-- The stored path of a row of this owner, if it is not empty. -/
def ArtifactRow.stored_path (owner_id : String) (row : ArtifactRow) : Option String :=
  if row.owner_id = some owner_id then row.path.filter (· ≠ "") else none

/-- `artifact_paths`: the report's file, and those of the uploads. -/
def artifact_paths (owner_id : String) : Op (List String) := do
  let s ← reading
  let report := ((s.rows.of .reports).filter (·.owner_id = some owner_id)).head?.bind (·.stored_path owner_id)
  let s' ← reading
  pure (report.toList ++ (s'.rows.of .uploads).filterMap (·.stored_path owner_id))

/-- `audit_cleanup`. -/
def audit_cleanup (owner_id outcome detail : String) (now : Instant) : Op Unit := do
  let audit_id ← Proc.ask (S := retentionSignature) .uuid4
  let _ ← call (.audit_cleanup owner_id { audit_id, outcome, detail, timestamp_utc := now })
  pure ()

/-- `remove`. -/
def remove (files : FileStore) (path : String) : Op Unit :=
  match files.target path with
  | none => Proc.throw "artifact path escapes configured storage"
  | some target => do
      let fails ← Proc.ask (S := retentionSignature) .remove_fails
      match (fails : Option (String → Bool)) with
      | none =>
          let _ ← Proc.commit (S := retentionSignature) (.remove (files.covers target))
          pure ()
      | some part =>
          let _ ← Proc.commit (S := retentionSignature) (.remove fun file => files.covers target file && part file)
          Proc.throw "artifact file could not be deleted"

/-- `for path in paths`. -/
def remove_all (files : FileStore) : List String → Op Unit
  | [] => pure ()
  | path :: paths => do
      remove files path
      remove_all files paths

/-- `for index, artifact in enumerate(ARTIFACTS[cursor:], start=cursor)`, from this index on. -/
def delete_from (owner_id : String) (task_id : Uuid) (now : Instant) (index : Nat) : List Artifact → Op Unit
  | [] => pure ()
  | artifact :: artifacts => do
      let _ ← call (.delete_artifact artifact owner_id)
      Proc.modify (· ++ [artifact])
      let _ ← call (.save_task_failure task_id (index + 1) none now)
      delete_from owner_id task_id now (index + 1) artifacts

/-- The body of the attempt's `try`. -/
def erase (files : FileStore) (owner_id : String) (task : CleanupTask) (paths : List String) (now : Instant) :
    Op CleanupResult := do
  audit_cleanup owner_id "started" "retention cleanup claimed" now
  remove_all files paths
  delete_from owner_id task.task_id now task.cursor (ARTIFACTS.drop task.cursor)
  let _ ← call (.complete_task task.task_id now)
  audit_cleanup owner_id "success" "all hunt artifacts deleted" now
  let deleted ← Proc.get
  pure { task_id := task.task_id, status := .deleted, deleted_artifacts := deleted }

/-- `str(exc)[:500]`. -/
def shortened (message : String) : String := .ofList (message.toList.take 500)

/-- The handler of the attempt's `try`. -/
def failed (owner_id : String) (task : CleanupTask) (now : Instant) (message : String) : Op CleanupResult := do
  let deleted ← Proc.get
  let error := shortened message
  let _ ← call (.save_task_failure task.task_id (task.cursor + deleted.length)
    (if error = "" then none else some error) now)
  audit_cleanup owner_id "failed" error now
  pure {
    task_id := task.task_id, status := .retryable_failure, deleted_artifacts := deleted
    error := some message }

/-- `cleanup_hunt`. -/
def cleanup_hunt (files : FileStore) (policy : RetentionPolicy) (owner_id : String) (now : Instant) :
    Op CleanupResult := do
  let task ← claim_task owner_id now
  match ← lock_hunt owner_id with
  | none =>
      let _ ← call (.complete_task task.task_id now)
      pure { task_id := task.task_id, status := .already_missing }
  | some snapshot =>
      if retention_due snapshot now policy then
        let paths ← artifact_paths owner_id
        (erase files owner_id task paths now).handle (failed owner_id task now)
      else
        let _ ← call (.complete_task task.task_id now)
        pure { task_id := task.task_id, status := .skipped_active }

/-- Attempts: `now` is the time at the start, or when `cleanup` has started. -/
def Attempts (files : FileStore) (policy : RetentionPolicy) (h : History) (p : Client) : Prop :=
  ∃ owner_id now, now ≤ h.now.time ∧ p = cleanup_hunt files policy owner_id now []

/-- What else may happen at any time. -/
def Activities (t : retentionSignature.Transaction) : Prop := ∃ after, t = .activity after

/-! ### Live hunts -/

/-- The hunt is not there, or due for retention at this time. -/
def Database.due (policy : RetentionPolicy) (s : Database) : Bool :=
  s.hunt.all fun record => retention_due (record.snapshot s.time) s.time policy

/-- Does the transaction delete rows or files? -/
def Access.deletes : Access → Bool
  | .remove _ | .delete_artifact _ _ => true
  | _ => false

/-- Nothing is deleted of a hunt that is not due. -/
def DeletesDue (policy : RetentionPolicy) (_ : List Event) : Event → Prop
  | .committed t before _ => Access.deletes t = true → before.due policy = true
  | .answered _ _ => True

/-- What the latest activity since the last check has left. -/
def sinceCheck : List Event → Option Database
  | [] => none
  | .committed (.activity _) _ after :: _ => some after
  | .committed (.lock_hunt _) _ _ :: _ => none
  | _ :: past => sinceCheck past

/-- What is done to the hunt between a check and a deletion leaves it due. -/
def Unrevived (policy : RetentionPolicy) (past : List Event) : Event → Prop
  | .committed t _ _ => Access.deletes t = true → (sinceCheck past).all (·.due policy) = true
  | .answered _ _ => True

instance (policy : RetentionPolicy) (past : List Event) (e : Event) : Decidable (DeletesDue policy past e) := by
  unfold DeletesDue
  split <;> infer_instance

instance (policy : RetentionPolicy) (past : List Event) (e : Event) : Decidable (Unrevived policy past e) := by
  unfold Unrevived
  split <;> infer_instance

/-- The hunt is due if the latest activity since the last check has left it due. -/
def StillDue (policy : RetentionPolicy) (h : History) : Prop :=
  (sinceCheck h.past).all (·.due policy) = true → h.now.due policy = true

/-- The regime of attempts: time passes, and what is due stays due unless it is revived. -/
def live (policy : RetentionPolicy) : Regime retentionSignature where
  admits := Unrevived policy
  inv h := Admitted (DeletesDue policy) h.past
  rely h h' := h.now.time ≤ h'.now.time ∧ (StillDue policy h → StillDue policy h')
  guar _ _ := True
  rely_refl _ := ⟨le_rfl, id⟩
  rely_trans h₁ h₂ := ⟨h₁.1.trans h₂.1, h₂.2 ∘ h₁.2⟩

section Live

variable {policy : RetentionPolicy} {files : FileStore} {owner_id : String} {now : Instant}

/-- A hunt that was due when it was locked is due. -/
theorem due_of_locked {s : Database} {snapshot : HuntRetentionSnapshot} (h : s.locked owner_id = some snapshot)
    (hdue : retention_due snapshot now policy = true) (hle : now ≤ s.time) : s.due policy = true := by
  obtain ⟨record, hrecord, rfl⟩ := Option.map_eq_some_iff.mp h
  have hhunt : s.hunt = some record := (Option.filter_eq_some_iff.mp hrecord).1
  simpa [Database.due, hhunt] using retention_due_mono hdue hle

/-- The transactions of an attempt but for its check. -/
def Access.cleans : Access → Bool
  | .lock_hunt _ | .activity _ => false
  | _ => true

/-- They take no time, and leave the hunt alone or delete it. -/
theorem kept_of_cleans {t : Access} (ht : t.cleans = true) {s s' : Database} (htx : t.effect s = some s') :
    s'.time = s.time ∧ (s'.hunt = s.hunt ∨ ∃ owner_id, s'.hunt = s.hunt.filter (·.owner_id ≠ owner_id)) := by
  cases t with
  | claim_task owner_id task_id now =>
      obtain ⟨task, -, rfl⟩ := Option.map_eq_some_iff.mp htx
      exact ⟨rfl, .inl rfl⟩
  | lock_hunt owner_id => cases ht
  | remove gone =>
      cases htx
      exact ⟨rfl, .inl rfl⟩
  | delete_artifact artifact owner_id =>
      cases htx
      cases artifact with
      | rows table => exact ⟨rfl, .inl rfl⟩
      | hunt => exact ⟨rfl, .inr ⟨owner_id, rfl⟩⟩
  | save_task_failure task_id cursor error now =>
      cases htx
      exact ⟨rfl, .inl rfl⟩
  | complete_task task_id now =>
      cases htx
      exact ⟨rfl, .inl rfl⟩
  | audit_cleanup owner_id audit =>
      cases htx
      exact ⟨rfl, .inl rfl⟩
  | activity after => cases ht

theorem due_of_cleans {t : Access} (ht : t.cleans = true) {s s' : Database} (htx : t.effect s = some s')
    (h : s.due policy = true) : s'.due policy = true := by
  obtain ⟨htime, hhunt | ⟨owner, hhunt⟩⟩ := kept_of_cleans ht htx
  · simpa [Database.due, htime, hhunt] using h
  · simp only [Database.due, htime, hhunt, Option.all_eq_true] at h ⊢
    intro record hrecord
    exact h record (Option.filter_eq_some_iff.mp hrecord).1

theorem sinceCheck_of_cleans {t : Access} (ht : t.cleans = true) {s s' : Database} {past : List Event} :
    sinceCheck (.committed (S := retentionSignature) t s s' :: past) = sinceCheck past := by
  cases t with
  | lock_hunt => cases ht
  | activity => cases ht
  | _ => rfl

/-- They delete only what is due. -/
theorem commits_stillDue {t : Access} (ht : t.cleans = true) :
    (live policy).Commits t (StillDue policy) (StillDue policy) := by
  intro h s hI htx ha hstill
  refine ⟨⟨fun hdeletes => hstill (ha hdeletes), hI⟩, trivial, fun hsince => ?_⟩
  have hsame : sinceCheck (.committed (S := retentionSignature) t h.now s :: h.past) = sinceCheck h.past :=
    sinceCheck_of_cleans ht
  exact due_of_cleans ht htx (hstill (hsame ▸ hsince))

/-- What an attempt keeps once it has found the hunt due. -/
abbrev KeepsDue (policy : RetentionPolicy) {α : Type} (p : Op α) : Prop :=
  Proc.Keeps (live policy) (fun _ h => StillDue policy h) p

theorem stable_stillDue : Proc.Stable (live policy) fun (_ : List Artifact) h => StillDue policy h :=
  fun _ _ _ hr => hr.2

theorem keepsDue_ask (q : Ask) : KeepsDue policy (Proc.ask (S := retentionSignature) q) :=
  .ask stable_stillDue fun _ _ _ hI _ hstill => ⟨⟨trivial, hI⟩, trivial, hstill⟩

theorem keepsDue_commit {t : Access} (ht : t.cleans = true) :
    KeepsDue policy (Proc.commit (S := retentionSignature) t) :=
  .commit stable_stillDue fun _ => commits_stillDue ht

theorem keepsDue_call {t : Access} (ht : t.cleans = true) : KeepsDue policy (call t) := by
  refine (keepsDue_ask .repository_fault).bind fun fault => ?_
  cases (fault : RepositoryFault) with
  | none => exact keepsDue_commit ht
  | beforeCommit message => exact .throw message
  | afterCommit message => exact (keepsDue_commit ht).bind fun _ => .throw message

theorem keepsDue_reading : KeepsDue policy reading := by
  refine (keepsDue_ask .repository_fault).bind fun fault => ?_
  cases (fault : RepositoryFault) with
  | none => exact .read stable_stillDue
  | beforeCommit message => exact .throw message
  | afterCommit message => exact .throw message

theorem keepsDue_artifact_paths : KeepsDue policy (artifact_paths owner_id) :=
  keepsDue_reading.bind fun _ => keepsDue_reading.bind fun _ => .pure _

theorem keepsDue_audit_cleanup (outcome detail : String) :
    KeepsDue policy (audit_cleanup owner_id outcome detail now) :=
  (keepsDue_ask .uuid4).bind fun _ => (keepsDue_call rfl).bind fun _ => .pure _

theorem keepsDue_remove (path : String) : KeepsDue policy (remove files path) := by
  unfold remove
  cases files.target path with
  | none => exact .throw _
  | some target =>
      refine (keepsDue_ask .remove_fails).bind fun fails => ?_
      cases (fails : Option (String → Bool)) with
      | none => exact (keepsDue_commit rfl).bind fun _ => .pure _
      | some part => exact (keepsDue_commit rfl).bind fun _ => .throw _

theorem keepsDue_remove_all (paths : List String) : KeepsDue policy (remove_all files paths) := by
  induction paths with
  | nil => exact .pure _
  | cons path paths ih => exact (keepsDue_remove path).bind fun _ => ih

theorem keepsDue_delete_from (task_id : Uuid) (artifacts : List Artifact) (index : Nat) :
    KeepsDue policy (delete_from owner_id task_id now index artifacts) := by
  induction artifacts generalizing index with
  | nil => exact .pure _
  | cons artifact artifacts ih =>
      refine (keepsDue_call rfl).bind fun _ => .bind (.modify fun _ _ h => h) fun _ => ?_
      exact (keepsDue_call rfl).bind fun _ => ih (index + 1)

theorem keepsDue_erase (task : CleanupTask) (paths : List String) :
    KeepsDue policy (erase files owner_id task paths now) := by
  refine (keepsDue_audit_cleanup _ _).bind fun _ => (keepsDue_remove_all paths).bind fun _ => ?_
  refine (keepsDue_delete_from _ _ _).bind fun _ => (keepsDue_call rfl).bind fun _ => ?_
  exact (keepsDue_audit_cleanup _ _).bind fun _ => .bind .get fun _ => .pure _

theorem keepsDue_failed (task : CleanupTask) (message : String) :
    KeepsDue policy (failed owner_id task now message) := by
  refine .bind .get fun _ => (keepsDue_call rfl).bind fun _ => ?_
  exact (keepsDue_audit_cleanup _ _).bind fun _ => .pure _

/-! Before the check an attempt only has to know that it has started. -/

/-- The attempt has started by now. -/
abbrev KeepsStart (policy : RetentionPolicy) (now : Instant) {α : Type} (p : Op α) : Prop :=
  Proc.Keeps (live policy) (fun _ h => now ≤ h.now.time) p

theorem stable_started : Proc.Stable (live policy) fun (_ : List Artifact) h => now ≤ h.now.time :=
  fun _ _ _ hr hle => hle.trans hr.1

theorem keepsStart_ask (q : Ask) : KeepsStart policy now (Proc.ask (S := retentionSignature) q) :=
  .ask stable_started fun _ _ _ hI _ hle => ⟨⟨trivial, hI⟩, trivial, hle⟩

theorem keepsStart_call {t : Access} (ht : t.cleans = true) (hd : t.deletes = false) :
    KeepsStart policy now (call t) := by
  have keeps : KeepsStart policy now (Proc.commit (S := retentionSignature) t) := by
    refine .commit stable_started ?_
    intro _ h s hI htx _ hle
    refine ⟨⟨fun hdeletes => ?_, hI⟩, trivial, ?_⟩
    · rw [hd] at hdeletes
      cases hdeletes
    · exact hle.trans (kept_of_cleans ht htx).1.ge
  refine (keepsStart_ask .repository_fault).bind fun fault => ?_
  cases (fault : RepositoryFault) with
  | none => exact keeps
  | beforeCommit message => exact .throw message
  | afterCommit message => exact keeps.bind fun _ => .throw message

theorem keepsStart_claim_task : KeepsStart policy now (claim_task owner_id now) := by
  refine (keepsStart_ask .uuid4).bind fun task_id => (keepsStart_call rfl rfl).bind fun r => ?_
  obtain ⟨s, _⟩ := r
  dsimp only
  cases s.claimed owner_id task_id now with
  | none => exact .throw _
  | some task => exact .pure task

/-- What `lock_hunt` returns is true of the hunt it has locked. -/
theorem safe_lock_hunt {m : List Artifact} {h : History} (hle : now ≤ h.now.time) :
    (lock_hunt owner_id).Safe (live policy) m h
      (fun snapshot _ h' => now ≤ h'.now.time ∧
        ∀ found, snapshot = some found → retention_due found now policy = true → StillDue policy h')
      fun _ _ _ => True := by
  have locks : ∀ {m : List Artifact} {h : History}, now ≤ h.now.time →
      (Proc.commit (S := retentionSignature) (.lock_hunt owner_id) : Op _).Safe (live policy) m h
        (fun r _ h' => now ≤ h'.now.time ∧
          ∀ found, r.1.locked owner_id = some found → retention_due found now policy = true → StillDue policy h')
        fun _ _ _ => True := by
    intro m h hle
    refine Proc.safe_commit ?_ ?_
    · intro h' hr hI s htx _
      cases htx
      refine ⟨⟨fun hdeletes => (by cases hdeletes), hI⟩, trivial, hle.trans hr.1, fun found hfound hdue _ => ?_⟩
      exact due_of_locked hfound hdue (hle.trans hr.1)
    · intro h' _ _ hrefused
      cases hrefused
  refine Proc.Safe.seq (Proc.Safe.seq ((keepsStart_ask .repository_fault m h hle).mono (fun _ _ _ h => h)
    fun _ _ _ _ => trivial) ?_) fun r m' h' hr => Proc.safe_pure hr
  intro fault m' h' hle'
  cases (fault : RepositoryFault) with
  | none => exact locks hle'
  | beforeCommit message => exact Proc.safe_throw trivial
  | afterCommit message => exact Proc.Safe.seq (locks hle') fun _ _ _ _ => Proc.safe_throw trivial

/-- An attempt that has started deletes nothing of a live hunt. -/
theorem safe_cleanup_hunt {m : List Artifact} {h : History} (hle : now ≤ h.now.time) :
    (cleanup_hunt files policy owner_id now).Safe (live policy) m h (fun _ _ _ => True) fun _ _ _ => True := by
  have ends : ∀ {α : Type} {p : Op α} {I : List Artifact → History → Prop} {m h}, I m h →
      Proc.Keeps (live policy) I p → p.Safe (live policy) m h (fun _ _ _ => True) fun _ _ _ => True :=
    fun hI hp => (hp _ _ hI).mono (fun _ _ _ _ => trivial) fun _ _ _ _ => trivial
  refine Proc.Safe.seq ((keepsStart_claim_task m h hle).mono (fun _ _ _ h => h) fun _ _ _ _ => trivial) ?_
  intro task m₁ h₁ hle₁
  refine Proc.Safe.seq (safe_lock_hunt hle₁) ?_
  intro snapshot m₂ h₂ ⟨hle₂, hlocked⟩
  have completes : ∀ result, KeepsStart policy now
      (call (.complete_task task.task_id now) >>= fun _ => (pure result : Op CleanupResult)) :=
    fun result => (keepsStart_call rfl rfl).bind fun _ => .pure _
  cases snapshot with
  | none => exact ends hle₂ (completes _)
  | some snapshot =>
      refine Proc.safe_ite (fun hdue => ?_) fun _ => ends hle₂ (completes _)
      refine ends (hlocked snapshot rfl hdue) (keepsDue_artifact_paths.bind fun paths => ?_)
      exact (keepsDue_erase task paths).handle fun message => keepsDue_failed task message

end Live

/-- **Live hunts are spared.** In every run of attempts, each of which may crash anywhere, with anything
else done to the hunt at any time, nothing is deleted of a hunt that is not due, if what is done between
an attempt's check and a deletion leaves the hunt due. -/
theorem cleanup_spares_live_hunts (files : FileStore) (policy : RetentionPolicy) (s₀ : Database) (h : History)
    (p : Client) (run : Session.Run (Attempts files policy) Activities s₀ h p)
    (hu : Admitted (Unrevived policy) h.past) : Admitted (DeletesDue policy) h.past := by
  have attempts : ∀ h p, Attempts files policy h p → (live policy).inv h →
      p.Safe (live policy) (fun _ _ => True) h := by
    intro h p ⟨owner_id, now, hle, hp⟩ _
    rw [hp]
    have safe : (cleanup_hunt files policy owner_id now).Safe (live policy) [] h (fun _ _ _ => True) fun _ _ _ => True :=
      safe_cleanup_hunt hle
    exact Program.Safe.mono (fun _ _ _ => trivial) safe
  have activities : ∀ h t s, (live policy).inv h → Activities t → t.effect h.now = some s →
      (live policy).admits h.past (.committed t h.now s) →
      (live policy).inv (h.commit t s) ∧ (live policy).rely h (h.commit t s) := by
    intro h t s hI ⟨after, ht⟩ htx _
    subst ht
    have htime : h.now.time ≤ s.time := by
      simp only [Access.effect, Database.act] at htx
      split at htx
      next hle =>
        cases htx
        exact hle
      next => cases htx
    refine ⟨⟨fun hdeletes => ?_, hI⟩, htime, fun _ hleft => hleft⟩
    cases hdeletes
  exact (run.sound (Γ := live policy) (fun _ _ _ _ h => h) attempts activities trivial hu).1

/-! ### A hunt that is revived -/

/-- A store without links and directories. -/
def sampleFiles : FileStore where
  target := some
  covers file file' := file = file'
  covers_self file := by simp

/-- The default periods. -/
def samplePolicy : RetentionPolicy := {}

/-- A repository that never fails. -/
def sampleAnswers : ∀ q, retentionSignature.Answer q
  | .uuid4 => ("u" : Uuid)
  | .repository_fault => RepositoryFault.none
  | .remove_fails => (none : Option (String → Bool))

/-- `n` steps of the current attempt. -/
def sampleSteps (n : Nat) : List (Session.Turn retentionSignature (Except String CleanupResult × List Artifact)) :=
  .replicate n (.step sampleAnswers)

/-- A finalized hunt with one note, 91 days after its last change. -/
def sampleDatabase : Database where
  time := days 91
  hunt := some { owner_id := "o", state := .finalized, updated_at := 0, lease_expires_at := none }
  rows := { of table := if table = .hunt_notes then [{ owner_id := some "o" }] else [], one_report := by decide }
  files _ := false
  task := none

/-- The attempt that starts then. -/
def sampleAttempt : Client := cleanup_hunt sampleFiles samplePolicy "o" (days 91) []

/-- The attempt has started. -/
theorem sampleStart : Session.Run (Attempts sampleFiles samplePolicy) Activities sampleDatabase ⟨sampleDatabase, []⟩
    sampleAttempt := .start .init ⟨"o", days 91, le_rfl, rfl⟩

/-- Steps of the attempt, and what else happens, extend a run. -/
theorem samplePlay {turns : List (Session.Turn retentionSignature (Except String CleanupResult × List Artifact))}
    (hturns : ∀ t ∈ turns, (∃ answers, t = .step answers) ∨ ∃ after, t = .env (.activity after))
    {s₀ : Database} {h : History} {p : Client} (run : Session.Run (Attempts sampleFiles samplePolicy) Activities s₀ h p) :
    Session.Run (Attempts sampleFiles samplePolicy) Activities s₀ (Session.exec turns (h, p)).1
      (Session.exec turns (h, p)).2 := by
  refine Session.Run.exec (fun t ht h => ?_) run
  obtain ⟨answers, rfl⟩ | ⟨after, rfl⟩ := hturns t ht
  · exact trivial
  · exact ⟨after, rfl⟩

theorem sampleSteps_step {n : Nat} {t : Session.Turn retentionSignature (Except String CleanupResult × List Artifact)}
    (ht : t ∈ sampleSteps n) : (∃ answers, t = .step answers) ∨ ∃ after, t = .env (.activity after) :=
  .inl ⟨_, List.eq_of_mem_replicate ht⟩

/-- A cleanup that is not disturbed deletes a hunt that is due. -/
theorem cleanup_spares_live_hunts_undisturbed :
    ∃ h : History, h.now.hunt = none ∧ Admitted (DeletesDue samplePolicy) h.past := by
  have run := samplePlay (fun t (ht : t ∈ sampleSteps 80) => sampleSteps_step ht) sampleStart
  exact ⟨_, by decide +kernel, cleanup_spares_live_hunts _ _ _ _ _ run (by decide +kernel)⟩

/-- The hunt is changed the moment after it has been found due. -/
def revival : Activity where
  time := days 91
  hunt := some { owner_id := "o", state := .report_draft, updated_at := days 91, lease_expires_at := none }
  rows := sampleDatabase.rows
  files _ := false

/-- The cleanup then deletes the live hunt, and its rows first. -/
theorem revived_hunt_is_deleted :
    ∃ h p, Session.Run (Attempts sampleFiles samplePolicy) Activities sampleDatabase h p ∧ h.now.hunt = none ∧
      ¬ Admitted (DeletesDue samplePolicy) h.past := by
  have hturns : ∀ t ∈ sampleSteps 5 ++ .env (.activity revival) :: sampleSteps 75,
      (∃ answers, t = .step answers) ∨ ∃ after, t = .env (.activity after) := by
    intro t ht
    obtain ht | rfl | ht := List.mem_append.mp ht |>.imp id List.mem_cons.mp
    · exact sampleSteps_step ht
    · exact .inr ⟨revival, rfl⟩
    · exact sampleSteps_step ht
  have run := samplePlay hturns sampleStart
  exact ⟨_, _, run, by decide +kernel, by decide +kernel⟩

end Retention

end ThreatHunting
