import ThreatHunting.Services.Retention

/-!
# ThreatHunting.Services.Erasure

What a cleanup leaves of a hunt. The cursor of the cleanup task is kept from attempt to attempt, and a
table it has passed is not emptied again: the tables before the cursor are empty as long as nothing is
added to them. An attempt adds nothing but its own audit records, so that this is up to what else
happens to the hunt between the attempts.
-/

namespace ThreatHunting

open Store

namespace Retention

/-! ### What is left -/

/-- Nothing is left of the artifact but the cleanup's own audit records. -/
def Cleared (s : Database) : Artifact → Prop
  | .rows table => ∀ row ∈ s.rows.of table, table = .audit_records ∧ row.cleanup.isSome = true
  | .hunt => s.hunt = none

/-- The first `n` artifacts are cleared. -/
def Passed (n : Nat) (s : Database) : Prop := ∀ artifact ∈ ARTIFACTS.take n, Cleared s artifact

/-- The tables whose rows point to files. -/
def Table.hasFiles : Table → Bool
  | .uploads | .reports => true
  | _ => false

/-- The row points to the file. -/
def ArtifactRow.PointsTo (files : FileStore) (file : String) (row : ArtifactRow) : Prop :=
  ∃ path, row.path = some path ∧ path ≠ "" ∧ files.target path = some file

/-- A row of the table points to the file. -/
def PointedFrom (files : FileStore) (s : Database) (file : String) (table : Table) : Prop :=
  table.hasFiles = true ∧ ∃ row ∈ s.rows.of table, row.PointsTo files file

/-- Some row points to the file. -/
def Pointed (files : FileStore) (s : Database) (file : String) : Prop := ∃ table, PointedFrom files s file table

/-- A row that pointed to the file has been deleted by the cleanup. -/
def Orphaned (files : FileStore) (past : List Event) (file : String) : Prop :=
  ∃ e ∈ past, match e with
    | .committed (.delete_artifact (.rows table) _) before _ => PointedFrom files before file table
    | _ => False

/-- All that is stored of the hunt is its owner's. -/
structure Owned (owner_id : String) (s : Database) : Prop where
  rows : ∀ table, ∀ row ∈ s.rows.of table, row.owner_id = some owner_id
  hunt : ∀ record, s.hunt = some record → record.owner_id = owner_id

/-- Where the cleanup has come to, it has left nothing behind. -/
def Resumable (s : Database) : Prop := ∀ task, s.task = some task → Passed task.cursor s

/-! ### Between attempts -/

/-- The last thing that happened was not some activity. -/
def quiet : List Event → Bool
  | [] => true
  | .answered _ _ :: past => quiet past
  | .committed (.activity _) _ _ :: _ => false
  | .committed _ _ _ :: _ => true

/-- Nothing of this artifact is new. -/
def NothingNew (before after : Database) : Artifact → Prop
  | .rows table => ∀ row ∈ after.rows.of table, row ∈ before.rows.of table
  | .hunt => before.hunt = none → after.hunt = none

/-- Activity leaves the hunt its owner's, adds nothing to what the cursor has passed, and leaves a file
that a deleted row pointed to only where a row points to it. -/
structure Considerate (files : FileStore) (owner_id : String) (past : List Event) (before after : Database) :
    Prop where
  owned : Owned owner_id after
  nothing_new : ∀ task, before.task = some task → ∀ artifact ∈ ARTIFACTS.take task.cursor,
    NothingNew before after artifact
  files : ∀ file, Orphaned files past file → after.files file = true → Pointed files after file

/-- Activity is considerate, and falls between the attempts: what an attempt does after its claim comes
right after something it has done. -/
def Between (files : FileStore) (owner_id : String) (past : List Event) : Event → Prop
  | .answered _ _ => True
  | .committed (.activity _) before after => Considerate files owner_id past before after
  | .committed (.claim_task _ _ _) _ _ => True
  | .committed _ _ _ => quiet past = true

/-- What holds whenever an attempt may be resumed. -/
structure Tidy (files : FileStore) (owner_id : String) (h : History) : Prop where
  owned : Owned owner_id h.now
  resumable : Resumable h.now
  orphans : ∀ file, Orphaned files h.past file → h.now.files file = true → Pointed files h.now file

/-- The regime of an attempt, which may rely on nothing once there has been activity. -/
def tidy (files : FileStore) (owner_id : String) : Regime retentionSignature where
  admits := Between files owner_id
  inv := Tidy files owner_id
  rely h h' := h' = h ∨ quiet h'.past = false
  guar _ _ := True
  rely_refl _ := .inl rfl
  rely_trans := by
    intro h₁ h₂ h₃ h₁₂ h₂₃
    obtain rfl | h₂₃ := h₂₃
    · exact h₁₂
    · exact .inr h₂₃

/-- An assertion about the store while there is no activity. -/
def Quietly (P : Database → Prop) (h : History) : Prop := quiet h.past = true → P h.now

section Artifacts

theorem Passed.mono {n n' : Nat} {s : Database} (h : Passed n s) (hle : n' ≤ n) : Passed n' s :=
  fun artifact hmem => h artifact ((List.take_subset_take_left _ hle) hmem)

/-- An artifact has been cleared after those before it. -/
theorem Passed.succ {n : Nat} {s : Database} {artifact : Artifact} {artifacts : List Artifact} (h : Passed n s)
    (hnext : ARTIFACTS.drop n = artifact :: artifacts) (hc : Cleared s artifact) : Passed (n + 1) s := by
  intro artifact' hmem
  have hget : ARTIFACTS[n]? = some artifact := by
    rw [← List.head?_drop, hnext, List.head?_cons]
  rw [List.take_add_one, hget, List.mem_append] at hmem
  obtain hmem | hmem := hmem
  · exact h artifact' hmem
  · simp only [Option.toList_some, List.mem_singleton] at hmem
    exact hmem ▸ hc

/-- Once all are passed, nothing is left. -/
theorem Passed.all {n : Nat} {s : Database} (h : Passed n s) (hn : ARTIFACTS.length ≤ n) (artifact : Artifact) :
    Cleared s artifact := by
  refine h artifact ?_
  rw [List.take_of_length_le hn]
  cases artifact with
  | rows table => cases table <;> decide
  | hunt => decide

/-- What is cleared stays cleared when nothing is added. -/
theorem Cleared.of_nothingNew {s s' : Database} {artifact : Artifact} (h : Cleared s artifact)
    (hn : NothingNew s s' artifact) : Cleared s' artifact := by
  cases artifact with
  | rows table => exact fun row hrow => h row (hn row hrow)
  | hunt => exact hn h

end Artifacts

/-! ### One transaction -/

/-- The attempt with this task has come to `k`. -/
structure Reached (task_id : Uuid) (k : Nat) (s : Database) : Prop where
  passed : Passed k s
  task : ∃ task, s.task = some task ∧ task.task_id = task_id

/-- It has come to `k`, and these paths are all that still leads to files. -/
structure Ready (files : FileStore) (task_id : Uuid) (k : Nat) (paths : List String) (s : Database) : Prop
    extends Reached task_id k s where
  remaining : ∀ file, Pointed files s file → s.files file = true → ∃ path ∈ paths, files.target path = some file

/-- What a transaction that is neither a claim nor activity does, where `P` held. -/
def Takes (files : FileStore) (owner_id : String) (t : Access) (P Q : Database → Prop) : Prop :=
  ∀ past s s', Tidy files owner_id ⟨s, past⟩ → P s → t.effect s = some s' →
    Q s' ∧ Tidy files owner_id ⟨s', .committed (S := retentionSignature) t s s' :: past⟩

section Transactions

variable {files : FileStore} {owner_id : String} {task_id : Uuid} {now : Instant} {k : Nat} {paths : List String}
  {s : Database} {past : List Event} {P Q : Database → Prop}

theorem takes_lock_hunt (owner : String) : Takes files owner_id (.lock_hunt owner) P P := by
  intro past s s' ht hP htx
  cases htx
  exact ⟨hP, ht.owned, ht.resumable, fun file ho => ht.orphans file (by simpa [Orphaned] using ho)⟩

/-- Files are removed. -/
theorem takes_remove {gone : String → Bool}
    (hQ : ∀ s : Database, P s → Q { s with files := fun file => s.files file && !gone file }) :
    Takes files owner_id (.remove gone) P Q := by
  intro past s s' ht hP htx
  cases htx
  refine ⟨hQ s hP, ⟨ht.owned.rows, ht.owned.hunt⟩, ht.resumable, fun file ho hfile => ?_⟩
  have ho : Orphaned files past file := by simpa [Orphaned] using ho
  exact ht.orphans file ho (Bool.and_eq_true_iff.mp hfile).1

/-- A task that is changed keeps its cursor, or is given one that has been reached. -/
theorem tidy_setTask {t : Access} {f : CleanupTask → CleanupTask} (ht : Tidy files owner_id ⟨s, past⟩)
    (hf : ∀ task, s.task = some task → task.task_id = task_id → Passed (f task).cursor s)
    (horphans : ∀ file, Orphaned files (.committed (S := retentionSignature) t s (s.setTask task_id f) :: past) file →
      Orphaned files past file) :
    Tidy files owner_id
      ⟨s.setTask task_id f, .committed (S := retentionSignature) t s (s.setTask task_id f) :: past⟩ where
  owned := ⟨ht.owned.rows, ht.owned.hunt⟩
  resumable := by
    intro task htask
    obtain ⟨task', htask', rfl⟩ := Option.map_eq_some_iff.mp htask
    split
    next hid => exact hf task' htask' hid
    next => exact ht.resumable task' htask'
  orphans file ho := ht.orphans file (horphans file ho)

theorem reached_setTask {f : CleanupTask → CleanupTask} (h : Reached task_id k s)
    (hf : ∀ task, (f task).task_id = task.task_id) : Reached task_id k (s.setTask task_id f) where
  passed := h.passed
  task := by
    obtain ⟨task, htask, hid⟩ := h.task
    exact ⟨f task, by simp [Database.setTask, htask, hid], by rw [hf, hid]⟩

/-- The cursor is saved. -/
theorem takes_save (error : Option String)
    (hP : ∀ s, P s → Reached task_id k s) (hQ : ∀ s f, P s → Reached task_id k (s.setTask task_id f) →
      Q (s.setTask task_id f)) : Takes files owner_id (.save_task_failure task_id k error now) P Q := by
  intro past s s' ht hp htx
  cases htx
  refine ⟨hQ s _ hp (reached_setTask (hP s hp) fun _ => rfl), tidy_setTask ht (fun _ _ _ => (hP s hp).passed) ?_⟩
  intro file ho
  simpa [Orphaned] using ho

/-- The task is completed; it keeps its cursor. -/
theorem takes_complete
    (hQ : ∀ s f, P s → (∀ task : CleanupTask, (f task).task_id = task.task_id) → Q (s.setTask task_id f)) :
    Takes files owner_id (.complete_task task_id now) P Q := by
  intro past s s' ht hp htx
  cases htx
  refine ⟨hQ s _ hp fun _ => rfl, tidy_setTask ht (fun task htask _ => ht.resumable task htask) ?_⟩
  intro file ho
  simpa [Orphaned] using ho

/-- The rows of an audited hunt. -/
theorem mem_audit {rows : Rows} {row row' : ArtifactRow} {table : Table} (h : row' ∈ (rows.audit row).of table) :
    row' ∈ rows.of table ∨ table = .audit_records ∧ row' = row := by
  simp only [Rows.audit] at h
  split at h
  next ht =>
    obtain rfl | h := List.mem_cons.mp h
    · exact .inr ⟨ht, rfl⟩
    · exact .inl h
  next => exact .inl h

/-- The database with one more of the cleanup's audit records. -/
abbrev Database.audited (s : Database) (owner_id : String) (audit : CleanupAudit) : Database :=
  { s with rows := s.rows.audit { owner_id := some owner_id, cleanup := some audit } }

theorem passed_audited {audit : CleanupAudit} (h : Passed k s) : Passed k (s.audited owner_id audit) := by
  intro artifact hmem
  have hc := h artifact hmem
  cases artifact with
  | rows table =>
      intro row hrow
      obtain hrow | ⟨htable, rfl⟩ := mem_audit hrow
      · exact hc row hrow
      · exact ⟨htable, rfl⟩
  | hunt => exact hc

/-- An audit record points to no file. -/
theorem pointed_audited {audit : CleanupAudit} {file : String} :
    Pointed files (s.audited owner_id audit) file ↔ Pointed files s file := by
  constructor
  · rintro ⟨table, hfiles, row, hrow, hpoints⟩
    obtain hrow | ⟨-, rfl⟩ := mem_audit hrow
    · exact ⟨table, hfiles, row, hrow, hpoints⟩
    · obtain ⟨path, hpath, -⟩ := hpoints
      cases hpath
  · rintro ⟨table, hfiles, row, hrow, hpoints⟩
    refine ⟨table, hfiles, row, ?_, hpoints⟩
    simp only [Rows.audit]
    split
    · exact List.mem_cons_of_mem _ hrow
    · exact hrow

/-- The cleanup records what it does. -/
theorem takes_audit (audit : CleanupAudit) (hQ : ∀ s, P s → Q (s.audited owner_id audit)) :
    Takes files owner_id (.audit_cleanup owner_id audit) P Q := by
  intro past s s' ht hp htx
  cases htx
  refine ⟨hQ s hp, ⟨?_, ht.owned.hunt⟩, fun task htask => passed_audited (ht.resumable task htask), ?_⟩
  · intro table row hrow
    obtain hrow | ⟨-, rfl⟩ := mem_audit hrow
    · exact ht.owned.rows table row hrow
    · rfl
  · intro file ho hfile
    have ho : Orphaned files past file := by simpa [Orphaned] using ho
    exact pointed_audited.mpr (ht.orphans file ho hfile)

/-! #### A deletion -/

theorem mem_delete {rows : Rows} {row : ArtifactRow} {table table' : Table} {owner : String}
    (h : row ∈ (rows.delete table owner).of table') :
    row ∈ rows.of table' ∧ (table' = table → row.owner_id ≠ some owner) := by
  simp only [Rows.delete] at h
  split at h
  next ht =>
    obtain ⟨hrow, howner⟩ := List.mem_filter.mp h
    exact ⟨hrow, fun _ => by simpa using howner⟩
  next ht => exact ⟨h, fun heq => absurd heq ht⟩

/-- A deletion adds nothing. -/
theorem nothingNew_delete (artifact artifact' : Artifact) :
    NothingNew s (s.delete_artifact owner_id artifact) artifact' := by
  cases artifact with
  | rows table =>
      cases artifact' with
      | rows table' => exact fun row hrow => (mem_delete hrow).1
      | hunt => exact id
  | hunt =>
      cases artifact' with
      | rows table' => exact fun row hrow => hrow
      | hunt =>
          intro hnone
          simp [Database.delete_artifact, hnone]

/-- It clears what it deletes. -/
theorem cleared_delete (ho : Owned owner_id s) (artifact : Artifact) :
    Cleared (s.delete_artifact owner_id artifact) artifact := by
  cases artifact with
  | rows table =>
      intro row hrow
      obtain ⟨hrow, howner⟩ := mem_delete hrow
      exact absurd (ho.rows table row hrow) (howner rfl)
  | hunt =>
      show s.hunt.filter _ = none
      rw [Option.filter_eq_none_iff]
      intro record hrecord
      simp [ho.hunt record hrecord]

theorem owned_delete (ho : Owned owner_id s) (artifact : Artifact) :
    Owned owner_id (s.delete_artifact owner_id artifact) := by
  cases artifact with
  | rows table => exact ⟨fun table' row hrow => ho.rows table' row (mem_delete hrow).1, ho.hunt⟩
  | hunt => exact ⟨ho.rows, fun record hrecord => ho.hunt record (Option.filter_eq_some_iff.mp hrecord).1⟩

/-- The next artifact is deleted, after all files have been removed. -/
theorem takes_delete {artifact : Artifact} {artifacts : List Artifact}
    (hnext : ARTIFACTS.drop k = artifact :: artifacts) :
    Takes files owner_id (.delete_artifact artifact owner_id) (Ready files task_id k [])
      (Ready files task_id (k + 1) []) := by
  intro past s s' ht hp htx
  cases htx
  have kept : ∀ {n}, Passed n s → Passed n (s.delete_artifact owner_id artifact) :=
    fun hpassed artifact' hmem => (hpassed artifact' hmem).of_nothingNew (nothingNew_delete artifact artifact')
  have htask : (s.delete_artifact owner_id artifact).task = s.task := by cases artifact <;> rfl
  have hfiles : (s.delete_artifact owner_id artifact).files = s.files := by cases artifact <;> rfl
  -- no row points to a file any more
  have absent : ∀ file, Pointed files s file → s.files file = true → False := by
    intro file hpointed hfile
    obtain ⟨path, hpath, -⟩ := hp.remaining file hpointed hfile
    cases hpath
  refine ⟨⟨⟨(kept hp.passed).succ hnext (cleared_delete ht.owned artifact), ?_⟩, ?_⟩, owned_delete ht.owned artifact, ?_, ?_⟩
  · rw [htask]
    exact hp.task
  · intro file hpointed hfile
    rw [hfiles] at hfile
    refine (absent file ?_ hfile).elim
    obtain ⟨table, htable, row, hrow, hpoints⟩ := hpointed
    exact ⟨table, htable, row, nothingNew_delete artifact (.rows table) row hrow, hpoints⟩
  · intro task htask'
    rw [htask] at htask'
    exact kept (ht.resumable task htask')
  · intro file ho hfile
    rw [hfiles] at hfile
    obtain ⟨e, hmem, he⟩ := ho
    obtain rfl | hmem := List.mem_cons.mp hmem
    · cases artifact with
      | rows table => exact (absent file ⟨table, he⟩ hfile).elim
      | hunt => exact he.elim
    · exact (absent file (ht.orphans file ⟨e, hmem, he⟩ hfile) hfile).elim

end Transactions

/-! ### An attempt -/

/-- The transactions of an attempt after its claim. -/
def Access.works : Access → Bool
  | .claim_task _ _ _ | .activity _ => false
  | _ => true

section Attempt

variable {files : FileStore} {owner_id : String} {now : Instant} {m : List Artifact} {h : History}
  {P Q : Database → Prop}

theorem stable_quietly {h' : History} (hr : (tidy files owner_id).rely h h') (hP : Quietly P h) : Quietly P h' := by
  obtain rfl | hloud := hr
  · exact hP
  · intro hq
    rw [hloud] at hq
    cases hq

/-- What a transaction does holds until there is activity. -/
theorem commits_quietly {t : Access} (hw : t.works = true) (ht : Takes files owner_id t P Q) :
    (tidy files owner_id).Commits t (Quietly P) (Quietly Q) := by
  intro h s hI htx ha hP
  have hq : quiet h.past = true := by
    cases t with
    | claim_task => cases hw
    | activity => cases hw
    | _ => exact ha
  obtain ⟨hQ, htidy⟩ := ht h.past h.now s hI (hP hq) htx
  exact ⟨htidy, trivial, fun _ => hQ⟩

theorem tidy_answer {q : Ask} {a : retentionSignature.Answer q} (hI : Tidy files owner_id h) :
    Tidy files owner_id (h.answer (S := retentionSignature) q a) where
  owned := hI.owned
  resumable := hI.resumable
  orphans file ho := by
    have ho : Orphaned files (.answered (S := retentionSignature) q a :: h.past) file := ho
    exact hI.orphans file (by simpa [Orphaned] using ho)

theorem safe_ask (q : Ask) (hP : Quietly P h) :
    (Proc.ask (S := retentionSignature) q : Op _).Safe (tidy files owner_id) m h
      (fun _ m' h' => m' = m ∧ Quietly P h') fun _ _ _ => False := by
  refine Proc.safe_ask ?_
  intro h' hr hI a _
  have hP' : Quietly P h' := stable_quietly hr hP
  exact ⟨tidy_answer hI, trivial, rfl, hP'⟩

theorem safe_commit {t : Access} (hw : t.works = true) (ht : Takes files owner_id t P Q) (hP : Quietly P h) :
    (Proc.commit (S := retentionSignature) t : Op _).Safe (tidy files owner_id) m h
      (fun _ m' h' => m' = m ∧ Quietly Q h') fun _ _ _ => False := by
  refine Proc.safe_commit ?_ ?_
  · intro h' hr hI s htx ha
    obtain ⟨hI', hg, hQ⟩ := commits_quietly hw ht h' s hI htx ha (stable_quietly hr hP)
    exact ⟨hI', hg, rfl, hQ⟩
  · intro h' _ _ hrefused
    cases t with
    | claim_task => cases hw
    | activity => cases hw
    | _ => cases hrefused

/-- A call of the repository; if it fails, it has been committed or not. -/
theorem safe_call {t : Access} {E : Database → Prop} (hw : t.works = true) (ht : Takes files owner_id t P Q)
    (hPE : ∀ s, P s → E s) (hQE : ∀ s, Q s → E s) (hP : Quietly P h) :
    (call t).Safe (tidy files owner_id) m h (fun _ m' h' => m' = m ∧ Quietly Q h')
      fun _ m' h' => m' = m ∧ Quietly E h' := by
  refine Proc.Safe.seq ((safe_ask .repository_fault hP).mono (fun _ _ _ h => h) fun _ _ _ h => h.elim) ?_
  rintro fault _ h' ⟨rfl, hP'⟩
  cases (fault : RepositoryFault) with
  | none => exact (safe_commit hw ht hP').mono (fun _ _ _ h => h) fun _ _ _ h => h.elim
  | beforeCommit message => exact Proc.safe_throw ⟨rfl, fun hq => hPE _ (hP' hq)⟩
  | afterCommit message =>
      refine Proc.Safe.seq ((safe_commit hw ht hP').mono (fun _ _ _ h => h) fun _ _ _ h => h.elim) ?_
      rintro _ _ h'' ⟨rfl, hQ⟩
      exact Proc.safe_throw ⟨rfl, fun hq => hQE _ (hQ hq)⟩

/-- Reading tells what is stored while there is no activity. -/
theorem safe_reading {T : Database → Database → Prop} (hP : Quietly P h)
    (hT : ∀ h' : History, Tidy files owner_id h' → P h'.now → T h'.now h'.now) :
    reading.Safe (tidy files owner_id) m h (fun s m' h' => m' = m ∧ Quietly (fun s' => P s' ∧ T s s') h')
      fun _ _ _ => True := by
  refine Proc.Safe.seq ((safe_ask .repository_fault hP).mono (fun _ _ _ h => h) fun _ _ _ h => h.elim) ?_
  rintro fault _ h' ⟨rfl, hP'⟩
  cases (fault : RepositoryFault) with
  | none =>
      refine Proc.safe_read fun h'' hr hI => ⟨rfl, fun hq => ?_⟩
      have hP'' := stable_quietly hr hP' hq
      exact ⟨hP'', hT h'' hI hP''⟩
  | beforeCommit message => exact Proc.safe_throw trivial
  | afterCommit message => exact Proc.safe_throw trivial

theorem safe_audit_cleanup {E : Database → Prop} (outcome detail : String)
    (hPP : ∀ s audit, P s → P (s.audited owner_id audit)) (hPE : ∀ s, P s → E s) (hP : Quietly P h) :
    (audit_cleanup owner_id outcome detail now).Safe (tidy files owner_id) m h
      (fun _ m' h' => m' = m ∧ Quietly P h') fun _ m' h' => m' = m ∧ Quietly E h' := by
  refine Proc.Safe.seq ((safe_ask .uuid4 hP).mono (fun _ _ _ h => h) fun _ _ _ h => h.elim) ?_
  rintro audit_id _ h' ⟨rfl, hP'⟩
  refine Proc.Safe.seq (safe_call rfl (takes_audit _ fun s hs => hPP s _ hs) hPE hPE hP') ?_
  rintro _ _ h'' ⟨rfl, hP''⟩
  exact Proc.safe_pure ⟨rfl, hP''⟩

/-- The stored path of an owner's row that points to a file. -/
theorem stored_path_of_pointsTo {row : ArtifactRow} {file : String} (howner : row.owner_id = some owner_id)
    (hp : row.PointsTo files file) :
    ∃ path, row.stored_path owner_id = some path ∧ files.target path = some file := by
  obtain ⟨path, hpath, hne, htarget⟩ := hp
  exact ⟨path, by simp [ArtifactRow.stored_path, howner, hpath, Option.filter, hne], htarget⟩

/-- The paths that are read lead to every file a row points to. -/
theorem target_of_pointed {s : Database} {file : String} (ho : Owned owner_id s) (hp : Pointed files s file) :
    ∃ path ∈ (((s.rows.of .reports).filter (·.owner_id = some owner_id)).head?.bind
        (·.stored_path owner_id)).toList ++ (s.rows.of .uploads).filterMap (·.stored_path owner_id),
      files.target path = some file := by
  obtain ⟨table, htable, row, hrow, hpoints⟩ := hp
  have howner := ho.rows table row hrow
  obtain ⟨path, hpath, htarget⟩ := stored_path_of_pointsTo howner hpoints
  refine ⟨path, List.mem_append.mpr ?_, htarget⟩
  cases table with
  | uploads => exact .inr (List.mem_filterMap.mpr ⟨row, hrow, hpath⟩)
  | reports =>
      -- the hunt has one report, which is this row
      have hone := s.rows.one_report
      obtain ⟨l₁, l₂, hsplit⟩ := List.append_of_mem hrow
      rw [hsplit, List.length_append, List.length_cons] at hone
      obtain rfl : l₁ = [] := List.length_eq_zero_iff.mp (by omega)
      obtain rfl : l₂ = [] := List.length_eq_zero_iff.mp (by omega)
      left
      simp [hsplit, howner, hpath]
  | _ => cases htable

theorem safe_artifact_paths {task_id : Uuid} {k : Nat} (hP : Quietly (Reached task_id k) h) :
    (artifact_paths owner_id).Safe (tidy files owner_id) m h
      (fun paths m' h' => m' = m ∧ Quietly (Ready files task_id k paths) h') fun _ _ _ => True := by
  refine Proc.Safe.seq (safe_reading (T := fun s s' => s.rows = s'.rows) hP fun _ _ _ => rfl) ?_
  rintro s _ h' ⟨rfl, hs⟩
  refine Proc.Safe.seq
    (safe_reading (T := fun s s' => s.rows = s'.rows ∧ Owned owner_id s') hs fun _ ht _ => ⟨rfl, ht.owned⟩) ?_
  rintro s' m' h'' ⟨rfl, hs'⟩
  refine Proc.safe_pure ⟨rfl, fun hq => ?_⟩
  obtain ⟨⟨hreached, hrows⟩, hrows', howned⟩ := hs' hq
  rw [hrows, hrows']
  exact ⟨hreached, fun file hpointed _ => target_of_pointed howned hpointed⟩

section Steps

variable {task_id : Uuid} {k : Nat} {paths : List String} {path : String} {s : Database}

theorem ready_audited {audit : CleanupAudit} (h : Ready files task_id k paths s) :
    Ready files task_id k paths (s.audited owner_id audit) :=
  ⟨⟨passed_audited h.passed, h.task⟩, fun file hp => h.remaining file (pointed_audited.mp hp)⟩

theorem reached_audited {audit : CleanupAudit} (h : Reached task_id k s) :
    Reached task_id k (s.audited owner_id audit) := ⟨passed_audited h.passed, h.task⟩

/-- The files a path leads to are removed. -/
theorem ready_removed {target : String} (ht : files.target path = some target)
    (h : Ready files task_id k (path :: paths) s) :
    Ready files task_id k paths { s with files := fun file => s.files file && !files.covers target file } where
  passed := h.passed
  task := h.task
  remaining file hp hfile := by
    obtain ⟨hfile, hcovers⟩ := Bool.and_eq_true_iff.mp hfile
    obtain ⟨path', hmem, htarget⟩ := h.remaining file hp hfile
    obtain rfl | hmem := List.mem_cons.mp hmem
    · -- the file itself is among what is removed
      rw [ht] at htarget
      obtain rfl := Option.some.inj htarget
      simp [files.covers_self] at hcovers
    · exact ⟨path', hmem, htarget⟩

theorem safe_remove (hP : Quietly (Ready files task_id k (path :: paths)) h) :
    (remove files path).Safe (tidy files owner_id) m h
      (fun _ m' h' => m' = m ∧ Quietly (Ready files task_id k paths) h')
      fun _ m' h' => m' = m ∧ Quietly (Reached task_id k) h' := by
  unfold remove
  cases htarget : files.target path with
  | none => exact Proc.safe_throw ⟨rfl, fun hq => (hP hq).toReached⟩
  | some target =>
      refine Proc.Safe.seq ((safe_ask .remove_fails hP).mono (fun _ _ _ h => h) fun _ _ _ h => h.elim) ?_
      rintro fails _ h' ⟨rfl, hP'⟩
      cases (fails : Option (String → Bool)) with
      | none =>
          refine Proc.Safe.seq ((safe_commit rfl (takes_remove fun s => ready_removed htarget) hP').mono
            (fun _ _ _ h => h) fun _ _ _ h => h.elim) ?_
          rintro _ _ h'' ⟨rfl, hP''⟩
          exact Proc.safe_pure ⟨rfl, hP''⟩
      | some part =>
          have htake : Takes files owner_id (.remove fun file => files.covers target file && part file)
              (Ready files task_id k (path :: paths)) (Reached task_id k) :=
            takes_remove fun s hs => ⟨hs.passed, hs.task⟩
          refine Proc.Safe.seq ((safe_commit rfl htake hP').mono (fun _ _ _ h => h) fun _ _ _ h => h.elim) ?_
          rintro _ _ h'' ⟨rfl, hP''⟩
          exact Proc.safe_throw ⟨rfl, hP''⟩

theorem safe_remove_all {h : History} (hP : Quietly (Ready files task_id k paths) h) :
    (remove_all files paths).Safe (tidy files owner_id) m h
      (fun _ m' h' => m' = m ∧ Quietly (Ready files task_id k []) h')
      fun _ m' h' => m' = m ∧ Quietly (Reached task_id k) h' := by
  induction paths generalizing h with
  | nil => exact Proc.safe_pure ⟨rfl, hP⟩
  | cons path paths ih =>
      refine Proc.Safe.seq (safe_remove hP) ?_
      rintro _ _ h' ⟨rfl, hP'⟩
      exact ih hP'

/-- The artifacts from the `k`-th on are deleted; whatever fails, as many as are remembered are passed. -/
theorem safe_delete_from {artifacts : List Artifact} {m : List Artifact} {h : History} {cursor k : Nat}
    (hdrop : ARTIFACTS.drop k = artifacts) (hm : cursor + m.length = k)
    (hP : Quietly (Ready files task_id k []) h) :
    (delete_from owner_id task_id now k artifacts).Safe (tidy files owner_id) m h
      (fun _ m' h' => Quietly (Ready files task_id (k + artifacts.length) []) h' ∧
        cursor + m'.length = k + artifacts.length)
      fun _ m' h' => Quietly (Reached task_id (cursor + m'.length)) h' := by
  induction artifacts generalizing k m h with
  | nil => exact Proc.safe_pure ⟨hP, hm⟩
  | cons artifact artifacts ih =>
      have fewer : ∀ {s : Database}, Reached task_id (k + 1) s → Reached task_id k s :=
        fun hs => ⟨hs.passed.mono (Nat.le_succ k), hs.task⟩
      have deletes := safe_call (m := m) (t := .delete_artifact artifact owner_id) (E := Reached task_id k) rfl
        (takes_delete hdrop) (fun s hs => hs.toReached) (fun s hs => fewer hs.toReached) hP
      refine Proc.Safe.seq (deletes.mono (fun _ _ _ h => h) ?_) ?_
      · rintro _ _ h' ⟨rfl, hE⟩
        rw [hm]
        exact hE
      rintro _ m h₁ ⟨rfl, hP₁⟩
      have hm₁ : cursor + (m ++ [artifact]).length = k + 1 := by
        rw [List.length_append, List.length_singleton]
        omega
      have remembers : (Proc.modify (· ++ [artifact]) : Op Unit).Safe (tidy files owner_id) m h₁
          (fun _ m' h' => m' = m ++ [artifact] ∧ Quietly (Ready files task_id (k + 1) []) h')
          fun _ m' h' => Quietly (Reached task_id (cursor + m'.length)) h' := Proc.safe_modify ⟨rfl, hP₁⟩
      refine Proc.Safe.seq remembers ?_
      rintro _ _ h₂ ⟨rfl, hP₂⟩
      have saving : Takes files owner_id (.save_task_failure task_id (k + 1) none now)
          (Ready files task_id (k + 1) []) (Ready files task_id (k + 1) []) :=
        takes_save none (fun s hs => hs.toReached) fun s f hs hr => ⟨hr, hs.remaining⟩
      have saves := safe_call (m := m ++ [artifact]) (E := Reached task_id (k + 1)) rfl saving
        (fun s hs => hs.toReached) (fun s hs => hs.toReached) hP₂
      refine Proc.Safe.seq (saves.mono (fun _ _ _ h => h) ?_) ?_
      · rintro _ _ h' ⟨rfl, hE⟩
        rw [hm₁]
        exact hE
      rintro _ _ h₃ ⟨rfl, hP₃⟩
      have hdrop₁ : ARTIFACTS.drop (k + 1) = artifacts := by
        rw [← List.drop_drop, hdrop, List.drop_one, List.tail_cons]
      have hlength : k + 1 + artifacts.length = k + (artifact :: artifacts).length := by
        rw [List.length_cons]
        omega
      rw [← hlength]
      exact ih hdrop₁ hm₁ hP₃

end Steps

/-- An attempt that returns "deleted" has passed every artifact. -/
def Completes (result : CleanupResult) (h : History) : Prop :=
  result.status = .deleted → Quietly (Passed ARTIFACTS.length) h

theorem safe_erase {task : CleanupTask} {paths : List String}
    (hP : Quietly (Ready files task.task_id task.cursor paths) h) :
    (erase files owner_id task paths now).Safe (tidy files owner_id) [] h (fun result _ => Completes result)
      fun _ m' h' => Quietly (Reached task.task_id (task.cursor + m'.length)) h' := by
  refine Proc.Safe.seq ((safe_audit_cleanup (E := Reached task.task_id task.cursor) _ _ (fun _ _ => ready_audited)
    (fun _ hs => hs.toReached) hP).mono (fun _ _ _ h => h) ?_) ?_
  · rintro _ _ h' ⟨rfl, hE⟩
    exact hE
  rintro _ _ h₁ ⟨rfl, hP₁⟩
  refine Proc.Safe.seq ((safe_remove_all hP₁).mono (fun _ _ _ h => h) ?_) ?_
  · rintro _ _ h' ⟨rfl, hE⟩
    exact hE
  rintro _ _ h₂ ⟨rfl, hP₂⟩
  refine Proc.Safe.seq (safe_delete_from rfl rfl hP₂) ?_
  rintro _ m' h₃ ⟨hP₃, hm'⟩
  have hall : ARTIFACTS.length ≤ task.cursor + (ARTIFACTS.drop task.cursor).length := by
    rw [List.length_drop]
    omega
  have completing : Takes files owner_id (.complete_task task.task_id now)
      (Ready files task.task_id (task.cursor + (ARTIFACTS.drop task.cursor).length) [])
      (Ready files task.task_id (task.cursor + (ARTIFACTS.drop task.cursor).length) []) :=
    takes_complete fun s f hs hf => ⟨reached_setTask hs.toReached hf, hs.remaining⟩
  have ends : ∀ {m h}, m = m' → Quietly (Reached task.task_id
      (task.cursor + (ARTIFACTS.drop task.cursor).length)) h →
      Quietly (Reached task.task_id (task.cursor + m.length)) h := by
    rintro m h rfl hE
    rw [hm']
    exact hE
  refine Proc.Safe.seq ((safe_call rfl completing (fun _ hs => hs.toReached) (fun _ hs => hs.toReached) hP₃).mono
    (fun _ _ _ h => h) fun _ _ _ hE => ends hE.1 hE.2) ?_
  rintro _ _ h₄ ⟨rfl, hP₄⟩
  refine Proc.Safe.seq ((safe_audit_cleanup _ _ (fun _ _ => ready_audited) (fun _ hs => hs.toReached) hP₄).mono
    (fun _ _ _ h => h) fun _ _ _ hE => ends hE.1 hE.2) ?_
  rintro _ _ h₅ ⟨rfl, hP₅⟩
  refine Proc.Safe.seq (Proc.safe_get (Q := fun _ _ h' => Quietly (Passed ARTIFACTS.length) h')
    fun hq => (hP₅ hq).passed.mono hall) ?_
  intro deleted _ h₆ hP₆
  exact Proc.safe_pure fun _ => hP₆

theorem safe_failed {task : CleanupTask} {m : List Artifact} {h : History} {message : String}
    (hP : Quietly (Reached task.task_id (task.cursor + m.length)) h) :
    (failed owner_id task now message).Safe (tidy files owner_id) m h (fun result _ => Completes result)
      fun _ _ _ => True := by
  refine Proc.Safe.seq (Proc.safe_get (Q := fun deleted m' h' =>
    m' = m ∧ deleted = m ∧ Quietly (Reached task.task_id (task.cursor + m.length)) h') ⟨rfl, rfl, hP⟩) ?_
  rintro m _ h₁ ⟨rfl, rfl, hP₁⟩
  have saving : ∀ error, Takes files owner_id (.save_task_failure task.task_id (task.cursor + m.length) error now)
      (Reached task.task_id (task.cursor + m.length)) (Reached task.task_id (task.cursor + m.length)) :=
    fun error => takes_save error (fun _ hs => hs) fun _ _ _ hr => hr
  refine Proc.Safe.seq ((safe_call (E := fun _ => True) rfl (saving _) (fun _ _ => trivial) (fun _ _ => trivial)
    hP₁).mono (fun _ _ _ h => h) fun _ _ _ _ => trivial) ?_
  rintro _ _ h₂ ⟨rfl, hP₂⟩
  refine Proc.Safe.seq ((safe_audit_cleanup (E := fun _ => True) _ _ (fun _ _ => reached_audited)
    (fun _ _ => trivial) hP₂).mono (fun _ _ _ h => h) fun _ _ _ _ => trivial) ?_
  rintro _ _ h₃ ⟨rfl, -⟩
  exact Proc.safe_pure nofun

/-- A claim finds the cursor where the attempts before have come to. -/
theorem tidy_claimed {s : Database} {past : List Event} {owner task_id : String} {task : CleanupTask}
    (ht : Tidy files owner_id ⟨s, past⟩) (htask : s.claimed owner task_id now = some task) :
    Reached task.task_id task.cursor { s with task := some task } ∧
      Tidy files owner_id ⟨{ s with task := some task },
        .committed (S := retentionSignature) (.claim_task owner task_id now) s { s with task := some task } :: past⟩ := by
  have hpassed : Passed task.cursor s := by
    unfold Database.claimed at htask
    split at htask
    · cases htask
      intro artifact hmem
      cases hmem
    next task' htask' =>
      split at htask
      · cases htask
        exact ht.resumable task' htask'
      · cases htask
  refine ⟨⟨hpassed, task, rfl, rfl⟩, ⟨ht.owned.rows, ht.owned.hunt⟩, ?_, ?_⟩
  · intro task' htask'
    cases htask'
    exact hpassed
  · intro file ho
    exact ht.orphans file (by simpa [Orphaned] using ho)

theorem safe_claim_task (owner : String) :
    (claim_task owner now).Safe (tidy files owner_id) m h
      (fun task m' h' => m' = m ∧ Quietly (Reached task.task_id task.cursor) h') fun _ _ _ => True := by
  have anything : ∀ h : History, Quietly (fun _ => True) h := fun _ _ => trivial
  refine Proc.Safe.seq ((safe_ask .uuid4 (anything h)).mono (fun _ _ _ h => h) fun _ _ _ h => h.elim) ?_
  rintro task_id m h₁ ⟨rfl, -⟩
  have claims : ∀ h, (Proc.commit (S := retentionSignature) (.claim_task owner task_id now) : Op _).Safe
      (tidy files owner_id) m h (fun r m' h' => m' = m ∧ ∀ task, r.1.claimed owner task_id now = some task →
        Quietly (Reached task.task_id task.cursor) h') fun _ _ _ => True := by
    intro h
    refine Proc.safe_commit ?_ ?_
    · intro h' _ hI s htx _
      obtain ⟨task, htask, rfl⟩ := Option.map_eq_some_iff.mp htx
      obtain ⟨hreached, htidy⟩ := tidy_claimed hI htask
      refine ⟨htidy, trivial, rfl, fun task' htask' _ => ?_⟩
      obtain rfl := Option.some.inj (htask.symm.trans htask')
      exact hreached
    · intro h' _ _ hrefused
      refine ⟨rfl, fun task htask => ?_⟩
      have hnone : h'.now.claimed owner task_id now = none := Option.map_eq_none_iff.mp hrefused
      rw [htask] at hnone
      cases hnone
  refine Proc.Safe.seq (T := fun r m' h' => m' = m ∧ ∀ task, r.1.claimed owner task_id now = some task →
        Quietly (Reached task.task_id task.cursor) h') ?_ ?_
  · refine Proc.Safe.seq ((safe_ask .repository_fault (anything h₁)).mono (fun _ _ _ h => h)
      fun _ _ _ h => h.elim) ?_
    rintro fault m h₂ ⟨rfl, -⟩
    cases (fault : RepositoryFault) with
    | none => exact claims h₂
    | beforeCommit message => exact Proc.safe_throw trivial
    | afterCommit message => exact Proc.Safe.seq (claims h₂) fun _ _ _ _ => Proc.safe_throw trivial
  · rintro ⟨s, _⟩ _ h₃ ⟨rfl, htask⟩
    dsimp only at htask ⊢
    cases hclaimed : s.claimed owner task_id now with
    | none => exact Proc.safe_throw trivial
    | some task => exact Proc.safe_pure ⟨rfl, htask task hclaimed⟩

/-- What is locked is its owner's. -/
theorem safe_lock_hunt_owned {owner : String} (hP : Quietly P h) :
    (lock_hunt owner).Safe (tidy files owner_id) m h
      (fun snapshot m' h' => m' = m ∧ (∀ found, snapshot = some found → owner = owner_id) ∧ Quietly P h')
      fun _ _ _ => True := by
  have locks : ∀ {h}, Quietly P h → (Proc.commit (S := retentionSignature) (.lock_hunt owner) : Op _).Safe
      (tidy files owner_id) m h (fun r m' h' => m' = m ∧
        (∀ found, r.1.locked owner = some found → owner = owner_id) ∧ Quietly P h') fun _ _ _ => True := by
    intro h hP
    refine Proc.safe_commit ?_ ?_
    · intro h' hr hI s htx ha
      obtain ⟨hI', hg, hP'⟩ := commits_quietly rfl (takes_lock_hunt owner) h' s hI htx ha (stable_quietly hr hP)
      refine ⟨hI', hg, rfl, fun found hfound => ?_, hP'⟩
      obtain ⟨record, hrecord, -⟩ := Option.map_eq_some_iff.mp hfound
      obtain ⟨hhunt, howner⟩ := Option.filter_eq_some_iff.mp hrecord
      rw [← hI.owned.hunt record hhunt]
      exact (of_decide_eq_true howner).symm
    · intro h' _ _ hrefused
      cases hrefused
  refine Proc.Safe.seq (Proc.Safe.seq ((safe_ask .repository_fault hP).mono (fun _ _ _ h => h)
    fun _ _ _ h => h.elim) ?_) fun r m' h' hr => Proc.safe_pure hr
  rintro fault m h₁ ⟨rfl, hP₁⟩
  cases (fault : RepositoryFault) with
  | none => exact locks hP₁
  | beforeCommit message => exact Proc.safe_throw trivial
  | afterCommit message => exact Proc.Safe.seq (locks hP₁) fun _ _ _ _ => Proc.safe_throw trivial

/-- An attempt leaves what it finds tidy, and nothing if it returns "deleted". -/
theorem safe_cleanup_hunt_tidy {policy : RetentionPolicy} (owner : String) :
    (cleanup_hunt files policy owner now).Safe (tidy files owner_id) [] h (fun result _ => Completes result)
      fun _ _ _ => True := by
  refine Proc.Safe.seq (safe_claim_task owner) ?_
  rintro task m h₁ ⟨rfl, hP₁⟩
  refine Proc.Safe.seq (safe_lock_hunt_owned hP₁) ?_
  rintro snapshot m h₂ ⟨rfl, howner, hP₂⟩
  have completing : Takes files owner_id (.complete_task task.task_id now) (Reached task.task_id task.cursor)
      (Reached task.task_id task.cursor) := takes_complete fun s f hs hf => reached_setTask hs hf
  have stops : ∀ result : CleanupResult, result.status ≠ .deleted →
      Proc.Safe (tidy files owner_id) (call (.complete_task task.task_id now) >>= fun _ => (pure result : Op _)) [] h₂
        (fun result _ => Completes result) fun _ _ _ => True := by
    intro result hne
    refine Proc.Safe.seq ((safe_call (E := fun _ => True) rfl completing (fun _ _ => trivial) (fun _ _ => trivial)
      hP₂).mono (fun _ _ _ h => h) fun _ _ _ _ => trivial) ?_
    exact fun _ _ _ _ => Proc.safe_pure fun hd => absurd hd hne
  cases snapshot with
  | none => exact stops _ nofun
  | some snapshot =>
      obtain rfl := howner snapshot rfl
      refine Proc.safe_ite (fun _ => ?_) fun _ => stops _ nofun
      refine Proc.Safe.seq (safe_artifact_paths hP₂) ?_
      rintro paths m h₃ ⟨rfl, hP₃⟩
      refine Proc.Safe.handle (safe_erase hP₃) ?_
      exact fun message m' h₄ hP₄ => safe_failed hP₄

end Attempt

/-! ### Histories of attempts -/

/-- What an attempt returns with. -/
def Ends (r : Except String CleanupResult × List Artifact) (h : History) : Prop :=
  ∀ result, r.1 = .ok result → Completes result h

/-- Nothing is left of the hunt but the cleanup's own audit records, nor of the files its deleted rows
pointed to. -/
structure Erased (files : FileStore) (h : History) : Prop where
  cleared : ∀ artifact, Cleared h.now artifact
  files : ∀ file, Orphaned files h.past file → h.now.files file = false

section Histories

variable {files : FileStore} {owner_id : String} {h : History}

/-- Considerate activity leaves tidy what it finds tidy. -/
theorem tidy_activity {after : Activity} {s : Database} (hI : Tidy files owner_id h) (htx : h.now.act after = some s)
    (hc : Considerate files owner_id h.past h.now s) :
    Tidy files owner_id (h.commit (S := retentionSignature) (.activity after) s) where
  owned := hc.owned
  resumable := by
    intro task htask artifact hmem
    have hsame : s.task = h.now.task := by
      simp only [Database.act] at htx
      split at htx
      · cases htx
        rfl
      · cases htx
    have htask : h.now.task = some task := hsame.symm.trans htask
    exact (hI.resumable task htask artifact hmem).of_nothingNew (hc.nothing_new task htask artifact hmem)
  orphans := by
    intro file ho hfile
    have ho : Orphaned files (.committed (S := retentionSignature) (.activity after) h.now s :: h.past) file := ho
    exact hc.files file (by simpa [Orphaned] using ho) hfile

/-- Tidy databases stay tidy, and an attempt that has just returned "deleted" has passed every artifact. -/
theorem tidy_run {policy : RetentionPolicy} {s₀ : Database} {p : Client} (ho : Owned owner_id s₀) (hr : Resumable s₀)
    (run : Session.Run (Attempts files policy) Activities s₀ h p) (hb : Admitted (Between files owner_id) h.past) :
    Tidy files owner_id h ∧ p.Safe (tidy files owner_id) Ends h := by
  have stable : ∀ r h h', (tidy files owner_id).rely h h' → Ends r h → Ends r h' :=
    fun _ _ _ hr he result hresult hd => stable_quietly hr (he result hresult hd)
  have attempts : ∀ h p, Attempts files policy h p → (tidy files owner_id).inv h →
      p.Safe (tidy files owner_id) Ends h := by
    intro h p ⟨owner, now, _, hp⟩ _
    rw [hp]
    refine Program.Safe.mono ?_ (safe_cleanup_hunt_tidy owner)
    rintro ⟨r, m⟩ h' hr result rfl
    exact hr
  have activities : ∀ h t s, (tidy files owner_id).inv h → Activities t → t.effect h.now = some s →
      (tidy files owner_id).admits h.past (.committed t h.now s) →
      (tidy files owner_id).inv (h.commit t s) ∧ (tidy files owner_id).rely h (h.commit t s) := by
    intro h t s hI ⟨after, ht⟩ htx ha
    subst ht
    exact ⟨tidy_activity hI htx ha, .inr rfl⟩
  have start : Tidy files owner_id ⟨s₀, []⟩ := by
    refine ⟨ho, hr, fun file hfile => ?_⟩
    obtain ⟨e, hmem, -⟩ := hfile
    cases hmem
  exact run.sound (Γ := tidy files owner_id) stable attempts activities start hb

end Histories

/-- **Complete cleanups.** In every history of attempts, each of which may fail or crash anywhere, with
considerate activity between them, nothing is left of the hunt when an attempt returns "deleted". -/
theorem cleanup_is_complete (files : FileStore) (policy : RetentionPolicy) (owner_id : String) (s₀ : Database)
    (ho : Owned owner_id s₀) (hr : Resumable s₀) (h : History) (result : CleanupResult) (m : List Artifact)
    (run : Session.Run (Attempts files policy) Activities s₀ h (.pure (.ok result, m)))
    (hb : Admitted (Between files owner_id) h.past) (hq : quiet h.past = true) (hd : result.status = .deleted) :
    Erased files h := by
  obtain ⟨htidy, hends⟩ := tidy_run ho hr run hb
  have hpassed : Passed ARTIFACTS.length h.now := hends result rfl hd hq
  have hcleared : ∀ artifact, Cleared h.now artifact := hpassed.all le_rfl
  refine ⟨hcleared, fun file horphaned => ?_⟩
  by_contra hfile
  obtain ⟨table, htable, row, hrow, -⟩ := htidy.orphans file horphaned (by simpa using hfile)
  obtain ⟨rfl, -⟩ := hcleared (.rows table) row hrow
  cases htable

/-! ### Rows behind the cursor -/

section Examples

/-- What an attempt has returned, if it has. -/
def returned : Client → Option (CleanupResult × List Artifact)
  | .pure (.ok result, m) => some (result, m)
  | _ => none

theorem eq_of_returned {p : Client} {result : CleanupResult} {m : List Artifact} (h : returned p = some (result, m)) :
    p = .pure (.ok result, m) := by
  unfold returned at h
  split at h
  · cases h
    rfl
  · cases h

/-- Is the event some activity? -/
def isActivity : Event → Bool
  | .committed (.activity _) _ _ => true
  | _ => false

/-- Without activity, attempts follow each other. -/
theorem between_of_no_activity {files : FileStore} {owner_id : String} {past : List Event}
    (h : ∀ e ∈ past, isActivity e = false) : Admitted (Between files owner_id) past := by
  have quiets : ∀ {past : List Event}, (∀ e ∈ past, isActivity e = false) → quiet past = true := by
    intro past h
    induction past with
    | nil => rfl
    | cons e past ih =>
        have he := h e List.mem_cons_self
        have hpast := ih fun e' hmem => h e' (List.mem_cons_of_mem _ hmem)
        unfold quiet
        split
        · rfl
        next heq =>
          cases heq
          exact hpast
        next heq =>
          cases heq
          cases he
        · rfl
  induction past with
  | nil => trivial
  | cons e past ih =>
      have he := h e List.mem_cons_self
      have hpast : ∀ e ∈ past, isActivity e = false := fun e' hmem => h e' (List.mem_cons_of_mem _ hmem)
      refine ⟨?_, ih hpast⟩
      unfold Between
      split
      · trivial
      · cases he
      · trivial
      · exact quiets hpast

theorem sampleDatabase_owned : Owned "o" sampleDatabase where
  rows table row hrow := by
    simp only [sampleDatabase] at hrow
    split at hrow
    · rw [List.mem_singleton.mp hrow]
    · cases hrow
  hunt record hrecord := by
    cases hrecord
    rfl

/-- One attempt that nothing fails. -/
theorem cleanup_is_complete_at_once : ∃ h : History, h.now.task.map (·.cursor) = some 15 ∧ Erased sampleFiles h := by
  have run := samplePlay (fun t (ht : t ∈ sampleSteps 80) => sampleSteps_step ht) sampleStart
  have hstatus : (returned (Session.exec (sampleSteps 80) (⟨sampleDatabase, []⟩, sampleAttempt)).2).map
      (·.1.status) = some .deleted := by decide
  obtain ⟨⟨result, m⟩, hreturned, hd⟩ := Option.map_eq_some_iff.mp hstatus
  rw [eq_of_returned hreturned] at run
  exact ⟨_, by decide, cleanup_is_complete _ _ _ _ sampleDatabase_owned nofun _ _ _ run
    (between_of_no_activity (by decide)) (by decide) hd⟩

/-- The same with a row of this table. -/
def Rows.insert (rows : Rows) (table : Table) (row : ArtifactRow) (ht : table ≠ .reports) : Rows where
  of t := if t = table then row :: rows.of t else rows.of t
  one_report := by simpa [ht.symm] using rows.one_report

/-- A note is added, which changes the hunt. -/
def noted (s : Database) : Activity where
  time := s.time
  hunt := s.hunt.map fun record => { record with updated_at := s.time }
  rows := s.rows.insert .hunt_notes { owner_id := some "o" } (by decide)
  files := s.files

/-- Time passes. -/
def passing (time : Instant) (s : Database) : Activity := { s with time }

/-- Some activity, and then a new attempt. -/
def resumed (now : Instant) (f : Database → Activity) (c : History × Client) : History × Client :=
  ((Session.exec (S := retentionSignature) [.env (.activity (f c.1.now))] c).1, cleanup_hunt sampleFiles samplePolicy "o" now [])

/-- An attempt whose deletion of the query ledger fails, after the notes have been deleted. -/
def interrupted : History × Client :=
  Session.exec (sampleSteps 52 ++ .step (fun
    | .uuid4 => ("u" : Uuid)
    | .repository_fault => RepositoryFault.beforeCommit "connection lost"
    | .remove_fails => (none : Option (String → Bool))) :: sampleSteps 5) (⟨sampleDatabase, []⟩, sampleAttempt)

/-- A note is added then, so that the next attempt finds the hunt active. -/
def skipped : History × Client := Session.exec (sampleSteps 8) (resumed (days 91) noted interrupted)

/-- The attempt after the next retention period. -/
def resumedLater : History × Client := Session.exec (sampleSteps 40) (resumed (days 200) (passing (days 200)) skipped)

theorem resumed_run {now : Instant} {f : Database → Activity} {s₀ : Database} {c : History × Client}
    (run : Session.Run (Attempts sampleFiles samplePolicy) Activities s₀ c.1 c.2) (hle : now ≤ (resumed now f c).1.now.time) :
    Session.Run (Attempts sampleFiles samplePolicy) Activities s₀ (resumed now f c).1 (resumed now f c).2 := by
  refine .start (samplePlay (fun t ht => .inr ?_) run) ⟨"o", now, hle, rfl⟩
  exact ⟨f c.1.now, List.mem_singleton.mp ht⟩

/-- The three attempts are a run. -/
theorem resumedLater_run : Session.Run (Attempts sampleFiles samplePolicy) Activities sampleDatabase resumedLater.1 resumedLater.2 := by
  have first : Session.Run (Attempts sampleFiles samplePolicy) Activities sampleDatabase interrupted.1 interrupted.2 := by
    refine samplePlay (fun t ht => ?_) sampleStart
    obtain ht | rfl | ht := List.mem_append.mp ht |>.imp id List.mem_cons.mp
    · exact sampleSteps_step ht
    · exact .inl ⟨_, rfl⟩
    · exact sampleSteps_step ht
  have noted_hle : days 91 ≤ (resumed (days 91) noted interrupted).1.now.time := by decide
  have second : Session.Run (Attempts sampleFiles samplePolicy) Activities sampleDatabase skipped.1 skipped.2 :=
    samplePlay (fun t ht => sampleSteps_step ht) (resumed_run (f := noted) first noted_hle)
  have passing_hle : days 200 ≤ (resumed (days 200) (passing (days 200)) skipped).1.now.time := by decide
  exact samplePlay (fun t ht => sampleSteps_step ht) (resumed_run (f := passing (days 200)) second passing_hle)

/-- An audit record of a request, which has no owner. -/
def unowned : Database :=
  { sampleDatabase with
    rows := sampleDatabase.rows.insert .audit_records { owner_id := none } (by decide) }

/-- A row that is not the cleanup's own is left. -/
theorem not_erased {files : FileStore} {h : History} {table : Table}
    (hrow : (h.now.rows.of table).any (·.cleanup.isNone) = true) : ¬ Erased files h := by
  intro he
  obtain ⟨row, hmem, hnone⟩ := List.any_eq_true.mp hrow
  have hsome := (he.cleared (.rows table) row hmem).2
  simp [Option.isNone_iff_eq_none.mp hnone] at hsome

/-- The note is behind the cursor: the last attempt returns "deleted", and the note is left. So is an audit
record that has no owner. -/
theorem rows_behind_the_cursor_survive :
    (∃ h result m, Session.Run (Attempts sampleFiles samplePolicy) Activities sampleDatabase h (.pure (.ok result, m)) ∧
      result.status = .deleted ∧ quiet h.past = true ∧ h.now.hunt = none ∧ ¬ Erased sampleFiles h) ∧
    ∃ s₀ h result m, Session.Run (Attempts sampleFiles samplePolicy) Activities s₀ h (.pure (.ok result, m)) ∧
      result.status = .deleted ∧ (∀ e ∈ h.past, isActivity e = false) ∧ ¬ Erased sampleFiles h := by
  constructor
  · have hstatus : (returned resumedLater.2).map (·.1.status) = some .deleted := by decide +kernel
    obtain ⟨⟨result, m⟩, hreturned, hd⟩ := Option.map_eq_some_iff.mp hstatus
    have run := resumedLater_run
    rw [eq_of_returned hreturned] at run
    have hnote : (resumedLater.1.now.rows.of .hunt_notes).any (·.cleanup.isNone) = true := by decide +kernel
    exact ⟨_, result, m, run, hd, by decide +kernel, by decide +kernel, not_erased hnote⟩
  · have start : Session.Run (Attempts sampleFiles samplePolicy) Activities unowned ⟨unowned, []⟩ sampleAttempt :=
      .start .init ⟨"o", days 91, le_rfl, rfl⟩
    have run := samplePlay (fun t (ht : t ∈ sampleSteps 80) => sampleSteps_step ht) start
    have hstatus : (returned (Session.exec (sampleSteps 80) (⟨unowned, []⟩, sampleAttempt)).2).map (·.1.status) =
        some .deleted := by decide
    obtain ⟨⟨result, m⟩, hreturned, hd⟩ := Option.map_eq_some_iff.mp hstatus
    rw [eq_of_returned hreturned] at run
    have hrecord : ((Session.exec (sampleSteps 80) (⟨unowned, []⟩, sampleAttempt)).1.now.rows.of
        .audit_records).any (·.cleanup.isNone) = true := by decide
    exact ⟨unowned, _, result, m, run, hd, by decide, not_erased hrecord⟩

end Examples

end Retention

end ThreatHunting
