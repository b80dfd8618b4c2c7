import ThreatHunting.Lib.Recording
import ThreatHunting.Lib.Refinement
import ThreatHunting.Services.Transitions

/-!
# ThreatHunting.Services.Audit

The audit records of a hunt's changes. `_update` is two statements of one transaction: it selects
what the row holds, and then updates the row and records the change from what it has selected.
`audited` makes the two statements of every update of the service explicit, so that another client
may commit between them; the audited service refines the service.
-/

namespace ThreatHunting

open Store Op

namespace Audit

/-! ### Records -/

/-- The columns whose changes are recorded. -/
inductive Field
  | state | plan_version | report_state | report_version | results
  deriving DecidableEq

/-- What `_update` selects of the row. -/
structure Previous where
  state : HuntState
  plan_version : Option Nat
  report_state : Option HuntState
  report_version : Option Nat
  deriving DecidableEq

/-- A row of `audit_records` that records a change of a hunt. -/
structure AuditRecord where
  hunt_id : Uuid
  owner_id : String
  prior_state : Option HuntState
  resulting_state : HuntState
  changed_fields : List Field
  timestamp_utc : Instant
  deriving DecidableEq

/-- `changed_fields`; the results are not selected, so that setting them always counts. -/
def changed_fields (values : Values) (previous : Previous) : List Field :=
  (if values.state.any (· ≠ previous.state) then [.state] else []) ++
    (if values.plan_version.any (some · ≠ previous.plan_version) then [.plan_version] else []) ++
    (if values.report_state.any (some · ≠ previous.report_state) then [.report_state] else []) ++
    (if values.report_version.any (some · ≠ previous.report_version) then [.report_version] else []) ++
    (if values.results.isSome then [.results] else [])

/-- The record of an update, if a field changes. -/
def updateRecord (owner_id : String) (hunt_id : Uuid) (values : Values) (previous : Previous) :
    Option AuditRecord :=
  match changed_fields values previous with
  | [] => none
  | fields => some {
      hunt_id, owner_id
      prior_state := some previous.state
      resulting_state := values.state.getD previous.state
      changed_fields := fields
      timestamp_utc := values.updated_at_utc }

/-- The record `create_hunt` inserts. -/
def createRecord (row : HuntRow) : AuditRecord where
  hunt_id := row.hunt_id
  owner_id := row.owner_id
  prior_state := none
  resulting_state := .created
  changed_fields := []
  timestamp_utc := row.created_at_utc

/-! ### Audited transactions -/

/-- The tables of the service and the audit records, latest first. -/
structure AuditedDatabase where
  db : Database
  records : List AuditRecord

/-- The owner, the hunt and the condition of an update. -/
def selection : Transaction → Option (String × Uuid × Expect)
  | .update _ owner_id hunt_id expect _ | .update_and_enqueue owner_id hunt_id expect _ _ =>
      some (owner_id, hunt_id, expect)
  | .insert_hunt _ | .check_lease _ _ | .call_jobs _ _ => none

/-- `SELECT state, plan_version, report_state, report_version … WHERE` the update's condition. -/
def select (db : Database) (owner_id : String) (hunt_id : Uuid) (expect : Expect) : Option Previous :=
  ((db.owned owner_id hunt_id).filter expect.matches).map fun row =>
    ⟨row.state, row.plan_version, row.report_state, row.report_version⟩

/-- The record a transaction inserts, given what it has selected. -/
def recordOf (previous : Option Previous) : Transaction → Option AuditRecord
  | .insert_hunt row => some (createRecord row)
  | .update _ owner_id hunt_id _ values | .update_and_enqueue owner_id hunt_id _ values _ =>
      previous.bind (updateRecord owner_id hunt_id values)
  | .check_lease _ _ | .call_jobs _ _ => none

/-- A transaction with what it has selected. -/
structure AuditedTransaction where
  transaction : Transaction
  previous : Option Previous

/-- The change and its record are committed together. -/
def AuditedTransaction.effect (t : AuditedTransaction) (s : AuditedDatabase) : Option AuditedDatabase :=
  (t.transaction.effect s.db).map fun db => ⟨db, (recordOf t.previous t.transaction).toList ++ s.records⟩

/-- The service with its audit records. -/
def auditSignature : Signature AuditedDatabase where
  Question := Ask
  Answer := Ask.Answer
  Transaction := AuditedTransaction
  effect := AuditedTransaction.effect

/-- A client whose updates select first, and are refused where that finds no row. -/
def audited {α : Type} : Program signature α → Program auditSignature α
  | .pure a => .pure a
  | .ask q k => .ask (S := auditSignature) q fun a => audited (k a)
  | .read k => .read fun s => audited (k s.db)
  | .commit t k =>
      match selection t with
      | none => .commit (S := auditSignature) ⟨t, none⟩ fun s ok => audited (k s.db ok)
      | some (owner_id, hunt_id, expect) => .read fun seen =>
          match select seen.db owner_id hunt_id expect with
          | none => audited (k seen.db false)
          | some previous => .commit (S := auditSignature) ⟨t, some previous⟩ fun s ok => audited (k s.db ok)
  | .halt => .halt

/-! ### The audited service refines the service -/

/-- An event without its record. -/
def projectEvent : Store.Event auditSignature → Event
  | .answered q a => .answered (S := signature) q a
  | .committed t before after => .committed (S := signature) t.transaction before.db after.db

/-- A history without its records. -/
def project (h : Store.History auditSignature) : History := ⟨h.now.db, h.past.map projectEvent⟩

/-- An audited client is where its client is, or has selected for the next update. -/
inductive Follows {α : Type} : Program signature α → Program auditSignature α → Prop
  | same (p) : Follows p (audited p)
  | selected (t k previous) : Follows (.commit t k)
      (.commit (S := auditSignature) ⟨t, previous⟩ fun s ok => audited (k s.db ok))

theorem effect_eq_none {t : AuditedTransaction} {s : AuditedDatabase} (h : t.effect s = none) :
    t.transaction.effect s.db = none := by
  simpa [AuditedTransaction.effect] using h

theorem effect_eq_some {t : AuditedTransaction} {s s' : AuditedDatabase} (h : t.effect s = some s') :
    t.transaction.effect s.db = some s'.db ∧
      s'.records = (recordOf t.previous t.transaction).toList ++ s.records := by
  obtain ⟨db, hdb, rfl⟩ := Option.map_eq_some_iff.mp h
  exact ⟨hdb, rfl⟩

/-- An update whose selection finds no row would be refused. -/
theorem effect_of_select_eq_none {t : Transaction} {db : Database} {owner_id : String} {hunt_id : Uuid}
    {expect : Expect} (ht : selection t = some (owner_id, hunt_id, expect))
    (h : select db owner_id hunt_id expect = none) : t.effect db = none := by
  have refused : ∀ values, db.updateHunt owner_id hunt_id expect values = none := by
    intro values
    unfold Database.updateHunt
    cases hrow : db.owned owner_id hunt_id with
    | none => rfl
    | some row =>
        have hmiss : expect.matches row = false := by
          simpa [select, hrow, Option.filter] using h
        simp [hmiss]
  cases t with
  | insert_hunt row => cases ht
  | update writer owner_id' hunt_id' expect' values =>
      cases ht
      exact refused values
  | update_and_enqueue owner_id' hunt_id' expect' values job =>
      cases ht
      simp [Transaction.effect, refused]
  | check_lease lease now => cases ht
  | call_jobs svc call => cases ht

/-- Each step of an audited client is a step of its client, but for a selection that finds the row. -/
theorem follows_simulates {α : Type} : Pool.Simulates project (Follows (α := α)) where
  step {p p' q' h h'} hR st := by
    cases hR with
    | same p =>
        cases p with
        | pure a => cases st
        | ask q k =>
            cases st with
            | ask a => exact ⟨k a, .same _, .inr (Program.Step.ask (S := signature) (k := k) (h := project h) a)⟩
        | read k =>
            cases st
            exact ⟨k h.now.db, .same _, .inr .read⟩
        | commit t k =>
            cases ht : selection t with
            | none =>
                simp only [audited, ht] at st
                cases st with
                | accept htx => exact ⟨_, .same _, .inr (.accept (effect_eq_some htx).1)⟩
                | refuse htx => exact ⟨_, .same _, .inr (.refuse (effect_eq_none htx))⟩
            | some target =>
                obtain ⟨owner_id, hunt_id, expect⟩ := target
                simp only [audited, ht] at st
                cases st
                dsimp only
                cases hselect : select h.now.db owner_id hunt_id expect with
                | none => exact ⟨_, .same _, .inr (.refuse (effect_of_select_eq_none ht hselect))⟩
                | some previous => exact ⟨_, .selected t k _, .inl ⟨rfl, rfl⟩⟩
        | halt => cases st
    | selected t k previous =>
        cases st with
        | accept htx => exact ⟨_, .same _, .inr (.accept (effect_eq_some htx).1)⟩
        | refuse htx => exact ⟨_, .same _, .inr (.refuse (effect_eq_none htx))⟩

/-! ### What is recorded -/

/-- An update has selected a row that met its condition. -/
def Selected (_ : List (Store.Event auditSignature)) : Store.Event auditSignature → Prop
  | .answered _ _ => True
  | .committed t _ _ => ∀ owner_id hunt_id expect, selection t.transaction = some (owner_id, hunt_id, expect) →
      ∃ previous, t.previous = some previous ∧ ∀ state, expect.state = some state → previous.state = state

theorem state_of_select {db : Database} {owner_id : String} {hunt_id : Uuid} {expect : Expect}
    {previous : Previous} (h : select db owner_id hunt_id expect = some previous) {state : HuntState}
    (hs : expect.state = some state) : previous.state = state := by
  obtain ⟨row, hrow, rfl⟩ := Option.map_eq_some_iff.mp h
  exact Expect.state_of_matches (Option.filter_eq_some_iff.mp hrow).2 hs

/-- Audited clients update only after a selection. -/
theorem safe_audited {α : Type} {s₀ : AuditedDatabase} :
    ∀ (p : Program signature α) (h : Store.History auditSignature),
      (audited p).Safe (recording s₀ Selected) (fun _ _ => True) h
  | .pure _, _ => trivial
  | .ask q k, h => by
      intro h' _ ⟨hl, ha⟩ a _
      exact ⟨⟨.answered hl, trivial, ha⟩, List.suffix_cons _ _, safe_audited (k a) _⟩
  | .read k, h => fun h' _ _ => safe_audited (k h'.now.db) h'
  | .commit t k, h => by
      have committed : ∀ {previous : Option Previous} {h : Store.History auditSignature},
          (∀ owner_id hunt_id expect, selection t = some (owner_id, hunt_id, expect) →
            ∃ p, previous = some p ∧ ∀ state, expect.state = some state → p.state = state) →
          Program.Safe (recording s₀ Selected)
            (.commit (S := auditSignature) ⟨t, previous⟩ fun s ok => audited (k s.db ok)) (fun _ _ => True) h := by
        intro previous h hprevious h' _ ⟨hl, ha⟩
        constructor
        · intro s htx _
          exact ⟨⟨.committed hl htx, hprevious, ha⟩, List.suffix_cons _ _, safe_audited (k h'.now.db true) _⟩
        · intro _
          exact safe_audited (k h'.now.db false) h'
      cases ht : selection t with
      | none =>
          simp only [audited, ht]
          exact committed (by simp [ht])
      | some target =>
          obtain ⟨owner_id, hunt_id, expect⟩ := target
          simp only [audited, ht]
          intro h' _ _
          dsimp only
          cases hselect : select h'.now.db owner_id hunt_id expect with
          | none => exact safe_audited (k h'.now.db false) h'
          | some previous =>
              refine committed fun owner_id' hunt_id' expect' heq => ?_
              rw [ht] at heq
              cases heq
              exact ⟨previous, rfl, fun state hs => state_of_select hselect hs⟩
  | .halt, _ => trivial

/-! ### Changes of state -/

/-- The state of a hunt, if there is one. -/
def AuditedDatabase.stateOf (s : AuditedDatabase) (hunt_id : Uuid) : Option HuntState :=
  (s.db.hunts hunt_id).map (·.state)

/-- Does the record say that the hunt's state changed? -/
def AuditRecord.changes (record : AuditRecord) (hunt_id : Uuid) : Bool :=
  record.hunt_id = hunt_id && record.prior_state ≠ some record.resulting_state

/-- The state changes recorded of a hunt, latest first. -/
def changesOf (hunt_id : Uuid) (records : List AuditRecord) : List AuditRecord :=
  records.filter (·.changes hunt_id)

/-- What a transaction does to the state of a hunt, and what it records of it: nothing, or one change
from the state the hunt had to the state it has. -/
inductive ChangeRecorded (hunt_id : Uuid) (before after : AuditedDatabase) : Prop
  | unchanged : after.stateOf hunt_id = before.stateOf hunt_id →
      changesOf hunt_id after.records = changesOf hunt_id before.records → ChangeRecorded hunt_id before after
  | changed (record : AuditRecord) : after.stateOf hunt_id ≠ before.stateOf hunt_id →
      after.records = record :: before.records → record.hunt_id = hunt_id →
      record.prior_state = before.stateOf hunt_id → some record.resulting_state = after.stateOf hunt_id →
      ChangeRecorded hunt_id before after

/-- The law for every event. -/
def RecordsChanges (_ : List (Store.Event auditSignature)) : Store.Event auditSignature → Prop
  | .answered _ _ => True
  | .committed _ before after => ∀ hunt_id, ChangeRecorded hunt_id before after

/-- No commit has changed the state of the hunt since a plan edit selected it. -/
def EditsCurrent (_ : List (Store.Event auditSignature)) : Store.Event auditSignature → Prop
  | .committed ⟨.update writer _ hunt_id _ _, some previous⟩ before _ =>
      WorkflowService.edits writer = true → before.stateOf hunt_id = some previous.state
  | _ => True

instance (past : List (Store.Event auditSignature)) (e : Store.Event auditSignature) :
    Decidable (EditsCurrent past e) := by
  unfold EditsCurrent
  split <;> infer_instance

section Changes

variable {hunt_id : Uuid} {before after : AuditedDatabase} {t : AuditedTransaction}

theorem changesOf_append {record : Option AuditRecord} {records : List AuditRecord}
    (h : ∀ r, record = some r → r.changes hunt_id = false) :
    changesOf hunt_id (record.toList ++ records) = changesOf hunt_id records := by
  cases record with
  | none => rfl
  | some r => simp [changesOf, h r rfl]

/-- A record is of the hunt its transaction writes to. -/
theorem target_of_recordOf {previous : Option Previous} {transaction : Transaction} {record : AuditRecord}
    (h : recordOf previous transaction = some record) : transaction.target = some record.hunt_id := by
  have update : ∀ {owner_id hunt_id values}, previous.bind (updateRecord owner_id hunt_id values) = some record →
      some hunt_id = some record.hunt_id := by
    intro owner_id hunt_id values hrecord
    obtain ⟨p, -, hp⟩ := Option.bind_eq_some_iff.mp hrecord
    unfold updateRecord at hp
    split at hp
    · cases hp
    · cases hp
      rfl
  cases transaction with
  | insert_hunt row =>
      cases h
      rfl
  | update => exact update h
  | update_and_enqueue => exact update h
  | check_lease => cases h
  | call_jobs => cases h

/-- An update of the row it has selected records the change of its state. -/
theorem changeRecorded_of_update {owner_id : String} {values : Values} {row : HuntRow} {previous : Previous}
    (hrow : before.db.hunts hunt_id = some row) (hrow' : after.db.hunts hunt_id = some (values.set row))
    (hprevious : previous.state = row.state)
    (hrecords : after.records = (updateRecord owner_id hunt_id values previous).toList ++ before.records) :
    ChangeRecorded hunt_id before after := by
  have hbefore : before.stateOf hunt_id = some row.state := by simp [AuditedDatabase.stateOf, hrow]
  have hafter : after.stateOf hunt_id = some (values.state.getD row.state) := by
    simp [AuditedDatabase.stateOf, hrow', Values.set]
  by_cases hstate : values.state.getD row.state = row.state
  · refine .unchanged (by rw [hafter, hbefore, hstate]) ?_
    rw [hrecords]
    refine changesOf_append fun record hrecord => ?_
    unfold updateRecord at hrecord
    split at hrecord
    · cases hrecord
    · cases hrecord
      simp [AuditRecord.changes, hprevious, hstate]
  · obtain ⟨state, hset⟩ : ∃ state, values.state = some state := by
      cases hset : values.state with
      | none => simp [hset] at hstate
      | some state => exact ⟨state, rfl⟩
    have hne : state ≠ previous.state := by simpa [hset, hprevious] using hstate
    have hfields : changed_fields values previous ≠ [] := by simp [changed_fields, hset, hne]
    obtain ⟨record, hrecord, hhunt, hprior, hresult⟩ : ∃ record,
        updateRecord owner_id hunt_id values previous = some record ∧ record.hunt_id = hunt_id ∧
        record.prior_state = some previous.state ∧ record.resulting_state = state := by
      unfold updateRecord
      split
      next hnil => exact absurd hnil hfields
      next => exact ⟨_, rfl, rfl, rfl, by simp [hset]⟩
    refine .changed record ?_ ?_ hhunt ?_ ?_
    · rw [hafter, hbefore]
      simpa using hstate
    · rw [hrecords, hrecord]
      rfl
    · rw [hprior, hprevious, hbefore]
    · rw [hresult, hafter, hset, Option.getD_some]

/-- An update of the service that is no plan edit is conditional on the hunt's state. -/
theorem expects_state {helpers : Helpers} {services : Service → Prop} {s₀ : Database} {past : List Event}
    {writer : Writer} {hunt_id : Uuid} {expect : Expect} {values : Values}
    (hw : WorkflowService.Lawful helpers services s₀ past writer hunt_id expect values)
    (he : WorkflowService.edits writer = false) : ∃ state, expect.state = some state := by
  cases hw with
  | save_plan => cases he
  | revise_plan => cases he
  | cancel => exact ⟨_, rfl⟩
  | discover_start => exact ⟨_, rfl⟩
  | discover_demo => exact ⟨_, rfl⟩
  | discover_draft => exact ⟨_, rfl⟩
  | discover_review => exact ⟨_, rfl⟩
  | discover_fail => exact ⟨_, rfl⟩
  | approve => exact ⟨_, rfl⟩
  | reject => exact ⟨_, rfl⟩
  | execute => exact ⟨_, rfl⟩
  | save_report => exact ⟨_, rfl⟩
  | finalize_report => exact ⟨_, rfl⟩
  | execute_job => exact ⟨_, rfl⟩

/-- A lawful transaction records the change of every hunt's state, if a plan edit finds the state it
has selected. -/
theorem recordsChanges_of_lawful {helpers : Helpers} {services : Service → Prop} {s₀ : Database}
    {past : List Event} {past' : List (Store.Event auditSignature)} (htx : t.effect before = some after)
    (hl : WorkflowService.LawfulEvent helpers services s₀ past
      (.committed (S := signature) t.transaction before.db after.db))
    (hs : Selected past' (.committed (S := auditSignature) t before after))
    (hc : EditsCurrent past' (.committed (S := auditSignature) t before after)) (hunt_id : Uuid) :
    ChangeRecorded hunt_id before after := by
  obtain ⟨hdb, hrecords⟩ := effect_eq_some htx
  obtain ⟨transaction, previous⟩ := t
  have hstep := rowStep hdb hunt_id
  generalize hr : before.db.hunts hunt_id = r at hstep
  generalize hr' : after.db.hunts hunt_id = r' at hstep
  cases hstep with
  | same hne =>
      refine .unchanged (by simp [AuditedDatabase.stateOf, hr, hr']) ?_
      rw [hrecords]
      refine changesOf_append fun record hrecord => ?_
      have hother : record.hunt_id ≠ hunt_id := by
        intro heq
        exact hne (by rw [target_of_recordOf hrecord, heq])
      simp [AuditRecord.changes, hother]
  | @insert row hid =>
      have hblank : row.Blank := hl
      refine .changed (createRecord row) ?_ hrecords hid ?_ ?_
      · simp [AuditedDatabase.stateOf, hr, hr']
      · simp [AuditedDatabase.stateOf, hr, createRecord]
      · simp [AuditedDatabase.stateOf, hr', createRecord, hblank.1]
  | @update writer owner_id expect values row hm =>
      obtain ⟨selected, rfl, hstate⟩ := hs owner_id hunt_id expect rfl
      refine changeRecorded_of_update hr hr' ?_ hrecords
      by_cases he : WorkflowService.edits writer = true
      · have hcurrent := hc he
        simp only [AuditedDatabase.stateOf, hr, Option.map_some, Option.some.injEq] at hcurrent
        exact hcurrent.symm
      · obtain ⟨state, hexpect⟩ := expects_state hl (by simpa using he)
        rw [hstate state hexpect, Expect.state_of_matches hm hexpect]
  | @enqueue owner_id expect values job row hm =>
      obtain ⟨selected, rfl, hstate⟩ := hs owner_id hunt_id expect rfl
      refine changeRecorded_of_update hr hr' ?_ hrecords
      rw [hstate _ hl.1, Expect.state_of_matches hm hl.1]

end Changes

/-! ### Runs -/

/-- Clients of the audited service. -/
def AuditedClients (helpers : Helpers) (services : Service → Prop)
    (p : Program auditSignature (Except Fault Unit × BudgetCounters)) : Prop :=
  ∃ q, WorkflowService.Clients helpers services q ∧ p = audited q

/-- The records, latest first, lead from one state to another, each from where the one before it led. -/
inductive Path (first : Option HuntState) : List AuditRecord → Option HuntState → Prop
  | nil : Path first [] first
  | cons {record records state} : Path first records state → record.prior_state = state →
      Path first (record :: records) (some record.resulting_state)

section Runs

variable {helpers : Helpers} {services : Service → Prop} {s₀ : Database}
  {h : Store.History auditSignature} {ps : List (Program auditSignature (Except Fault Unit × BudgetCounters))}

/-- Every run of audited clients is a history of lawful writes that have selected. -/
theorem runs_audited (run : Pool.Run (AuditedClients helpers services) ⟨s₀, []⟩ h ps) :
    Leads ⟨s₀, []⟩ h.past h.now ∧ Admitted Selected h.past ∧
      Admitted (WorkflowService.LawfulEvent helpers services s₀) (h.past.map projectEvent) := by
  have safe : ∀ p, AuditedClients helpers services p → ∀ h : Store.History auditSignature,
      p.Safe (recording ⟨s₀, []⟩ Selected) (fun _ _ => True) h := by
    rintro p ⟨q, -, rfl⟩ h
    exact safe_audited q h
  have starts : ∀ p, AuditedClients helpers services p →
      ∃ q, WorkflowService.Clients helpers services q ∧ Follows q p := by
    rintro p ⟨q, hq, rfl⟩
    exact ⟨q, hq, .same q⟩
  obtain ⟨hl, hs⟩ := runs_record safe run
  obtain ⟨ps₀, run₀, -⟩ := run.refines follows_simulates starts rfl
  exact ⟨hl, hs, (WorkflowService.runs_lawful run₀).2⟩

/-- A history of events that record their changes is a path of recorded states. -/
theorem path_of_changes {first s : AuditedDatabase} {past : List (Store.Event auditSignature)}
    (hl : Leads first past s) (hc : Admitted RecordsChanges past) (hfirst : first.records = []) (hunt_id : Uuid) :
    Path (first.stateOf hunt_id) (changesOf hunt_id s.records) (s.stateOf hunt_id) := by
  induction hl with
  | nil =>
      rw [hfirst]
      exact .nil
  | answered _ ih => exact ih hc.2
  | @committed es s t s' _ _ ih =>
      have hpath := ih hc.2
      cases hc.1 hunt_id with
      | unchanged hstate hrecords =>
          rw [hstate, hrecords]
          exact hpath
      | changed record hne hrecords hhunt hprior hresult =>
          have hchanges : record.changes hunt_id = true := by
            simp only [AuditRecord.changes, hhunt, hprior, hresult, decide_true, Bool.true_and, decide_eq_true_eq]
            exact hne.symm
          have hcons : changesOf hunt_id (record :: s.records) = record :: changesOf hunt_id s.records := by
            simp [changesOf, hchanges]
          rw [hrecords, ← hresult, hcons]
          exact hpath.cons hprior

/-- **The audit chain.** In every run of any number of clients of the audited service, interleaved in any
order, in which no commit changes a hunt's state between the two statements of a plan edit, every change
of a hunt's state is recorded as it is committed, and the recorded changes lead from the hunt's first
state to its present one. -/
theorem audit_chain (run : Pool.Run (AuditedClients helpers services) ⟨s₀, []⟩ h ps)
    (he : Admitted EditsCurrent h.past) :
    Admitted RecordsChanges h.past ∧
      ∀ hunt_id, Path ((s₀.hunts hunt_id).map (·.state)) (changesOf hunt_id h.now.records)
        (h.now.stateOf hunt_id) := by
  obtain ⟨hl, hs, hlawful⟩ := runs_audited run
  have changes : ∀ {past s}, Leads (S := auditSignature) ⟨s₀, []⟩ past s → Admitted Selected past →
      Admitted (WorkflowService.LawfulEvent helpers services s₀) (past.map projectEvent) →
      Admitted EditsCurrent past → Admitted RecordsChanges past := by
    intro past s hl
    induction hl with
    | nil => exact fun _ _ _ => trivial
    | answered _ ih => exact fun hs hlaw he => ⟨trivial, ih hs.2 hlaw.2 he.2⟩
    | committed _ htx ih =>
        intro hs hlaw he
        exact ⟨recordsChanges_of_lawful htx hlaw.1 hs.1 he.1, ih hs.2 hlaw.2 he.2⟩
  have hc := changes hl hs hlawful he
  exact ⟨hc, path_of_changes hl hc rfl⟩

end Runs

/-! ### A stale plan edit -/

section Examples

open WorkflowService

/-- The schedule of a list of moves, audited. -/
def auditedSchedule (moves : List Move) :
    List (Pool.Turn auditSignature (Except Fault Unit × BudgetCounters)) :=
  moves.map fun
    | .start operation => .start (audited (Operation.run exampleHelpers exampleService operation {}))
    | .step i answers => .step (S := auditSignature) i answers

/-- The history audited moves lead to. -/
def playAudited (moves : List Move) (s₀ : Database) : Store.History auditSignature :=
  (Pool.exec (auditedSchedule moves) ⟨s₀, []⟩).1

/-- Audited moves are a run. -/
theorem playAudited_run (moves : List Move) (s₀ : Database) :
    ∃ ps, Pool.Run (AuditedClients exampleHelpers fun _ => True) ⟨s₀, []⟩ (playAudited moves s₀) ps := by
  refine ⟨_, Pool.exec_run (auditedSchedule moves) ?_⟩
  intro t ht p hp
  obtain ⟨move, _, rfl⟩ := List.mem_map.mp ht
  cases move with
  | start operation =>
      cases hp
      exact ⟨_, ⟨exampleService, operation, {}, trivial, rfl⟩, rfl⟩
  | step i answers => cases hp

/-- A plan save and a cancellation, one after the other. -/
theorem audit_chain_save_then_cancel :
    ∃ h : Store.History auditSignature, h.now.records.length = 2 ∧ Admitted RecordsChanges h.past ∧
      Path (some .plan_draft) (changesOf "h" h.now.records) (h.now.stateOf "h") := by
  let answers := exampleAnswers 0 "u"
  let moves : List Move :=
    [.start (.save_plan "o" "h" 1 examplePlan), .step 0 answers, .step 0 answers, .step 0 answers, .step 0 answers,
      .start (.cancel "o" "h"), .step 0 answers, .step 0 answers, .step 0 answers, .step 0 answers]
  obtain ⟨ps, run⟩ := playAudited_run moves (exampleDatabase (exampleRow .plan_draft))
  obtain ⟨hc, hpath⟩ := audit_chain run (by decide +kernel)
  exact ⟨_, by decide +kernel, hc, hpath "h"⟩

/-- A plan save selects the hunt, the hunt is cancelled, and the save updates it. -/
def staleEdit : List Move :=
  let answers := exampleAnswers 0 "u"
  [.start (.save_plan "o" "h" 1 examplePlan), .step 0 answers, .step 0 answers, .step 0 answers,
    .start (.cancel "o" "h"), .step 0 answers, .step 0 answers, .step 0 answers, .step 0 answers,
    .step 1 answers]

/-- The stale edit moves the cancelled hunt back to plan review, and records that it has been there all
along: the recorded changes end in a state the hunt does not have. -/
theorem stale_edit_is_misrecorded :
    ∃ h ps, Pool.Run (AuditedClients exampleHelpers fun _ => True)
        ⟨exampleDatabase (exampleRow .awaiting_plan_review), []⟩ h ps ∧
      ¬ Admitted RecordsChanges h.past ∧
      ¬ Path (some .awaiting_plan_review) (changesOf "h" h.now.records) (h.now.stateOf "h") := by
  obtain ⟨ps, run⟩ := playAudited_run staleEdit (exampleDatabase (exampleRow .awaiting_plan_review))
  have hstate : (playAudited staleEdit (exampleDatabase (exampleRow .awaiting_plan_review))).now.stateOf "h" =
      some .awaiting_plan_review := by decide +kernel
  have hchanges : (changesOf "h"
      (playAudited staleEdit (exampleDatabase (exampleRow .awaiting_plan_review))).now.records).map
        (·.resulting_state) = [.cancelled] := by decide +kernel
  have hpath : ¬ Path (some .awaiting_plan_review)
      (changesOf "h" (playAudited staleEdit (exampleDatabase (exampleRow .awaiting_plan_review))).now.records)
      ((playAudited staleEdit (exampleDatabase (exampleRow .awaiting_plan_review))).now.stateOf "h") := by
    obtain ⟨record, hrecord, hresult⟩ := List.map_eq_singleton_iff.mp hchanges
    rw [hrecord, hstate]
    intro hp
    generalize hcurrent : some HuntState.awaiting_plan_review = current at hp
    cases hp with
    | cons _ _ =>
        rw [hresult] at hcurrent
        cases hcurrent
  refine ⟨_, ps, run, fun hc => hpath ?_, hpath⟩
  exact path_of_changes run.leads hc rfl "h"

end Examples

end Audit

end ThreatHunting
