import ThreatHunting.Lib.Procedure
import ThreatHunting.Services.Documents
import ThreatHunting.Services.Leases

/-!
# ThreatHunting.Services.Hunts

The stored state of the workflow service and the accesses it makes to it: the tables
`workflow_hunts` and `execution_jobs`, the transactions on them, and what the service
asks of the world outside (clock, identifiers, Splunk, the model). `update` is
`WorkflowService._update`, the one conditional write every operation on a hunt goes
through. The audit table is left out: nothing reads it.
-/

namespace ThreatHunting

open Spl (QueryProposal)

/-- A row of `workflow_hunts`. -/
structure HuntRow where
  hunt_id : Uuid
  owner_id : String
  title : String
  hypothesis : String
  objective : String
  threat_intelligence : String
  synthetic_data : String
  state : HuntState
  plan_version : Option Nat := none
  plan : Option HuntPlan := none
  discovery_snapshot : Option DiscoverySnapshot := none
  approval : Option Approval := none
  results : Option Results := none
  report_id : Option Uuid := none
  report_version : Option Nat := none
  report_state : Option HuntState := none
  report_content : Option ReportContent := none
  report_pdf : Option Document := none
  created_at_utc : Instant
  updated_at_utc : Instant

/-- The tables of the service. -/
structure Database where
  hunts : Uuid → Option HuntRow
  jobs : JobTable

/-! ### Conditional updates -/

/-- The columns an update may be conditional on; `none` is no condition. -/
structure Expect where
  state : Option HuntState := none
  plan_version : Option Nat := none
  report_state : Option HuntState := none
  report_version : Option Nat := none

/-- Does a row meet the condition? -/
def Expect.matches (e : Expect) (row : HuntRow) : Bool :=
  e.state.all (· = row.state) && e.plan_version.all (some · = row.plan_version) &&
    e.report_state.all (some · = row.report_state) && e.report_version.all (some · = row.report_version)

/-- The columns an update sets; `none` leaves the column alone. -/
structure Values where
  state : Option HuntState := none
  plan_version : Option Nat := none
  plan : Option HuntPlan := none
  discovery_snapshot : Option DiscoverySnapshot := none
  approval : Option (Option Approval) := none
  results : Option Results := none
  report_id : Option Uuid := none
  report_version : Option Nat := none
  report_state : Option HuntState := none
  report_content : Option ReportContent := none
  report_pdf : Option Document := none
  updated_at_utc : Instant

/-- A row with the values set. -/
def Values.set (v : Values) (row : HuntRow) : HuntRow :=
  { row with
    state := v.state.getD row.state
    plan_version := v.plan_version <|> row.plan_version
    plan := v.plan <|> row.plan
    discovery_snapshot := v.discovery_snapshot <|> row.discovery_snapshot
    approval := v.approval.getD row.approval
    results := v.results <|> row.results
    report_id := v.report_id <|> row.report_id
    report_version := v.report_version <|> row.report_version
    report_state := v.report_state <|> row.report_state
    report_content := v.report_content <|> row.report_content
    report_pdf := v.report_pdf <|> row.report_pdf
    updated_at_utc := v.updated_at_utc }

namespace Database

/-- The row of a hunt, for its owner. -/
def owned (db : Database) (owner_id hunt_id : String) : Option HuntRow :=
  (db.hunts hunt_id).filter (·.owner_id = owner_id)

/-- `UPDATE workflow_hunts SET … WHERE hunt_id = … AND owner_id = … AND …`; `none` if no row
matches. -/
def updateHunt (db : Database) (owner_id hunt_id : String) (expect : Expect) (values : Values) :
    Option Database :=
  match db.owned owner_id hunt_id with
  | some row =>
      if expect.matches row then
        some { db with hunts := Function.update db.hunts hunt_id (some (values.set row)) }
      else none
  | none => none

/-- `INSERT INTO workflow_hunts`, refused where it would break the primary key. -/
def insertHunt (db : Database) (row : HuntRow) : Option Database :=
  match db.hunts row.hunt_id with
  | some _ => none
  | none => some { db with hunts := Function.update db.hunts row.hunt_id (some row) }

end Database

/-! ### Transactions -/

/-- Who makes an update. A worker's update names the lease it runs under and, where it stores
a completed search, that search. -/
inductive Writer
  | cancel | discover | save_plan | revise_plan | approve | reject | execute | save_report
  | finalize_report
  | execute_job (lease : JobLease) (completed : Option QueryExecution)

/-- The job `execute` enqueues. -/
structure NewJob where
  svc : JobService
  job_id : Uuid
  idempotency_key : String
  payload : JobPayload
  now : Instant

/-- The transactions of the service. -/
inductive Transaction
  | insert_hunt (row : HuntRow)
  | update (writer : Writer) (owner_id hunt_id : String) (expect : Expect) (values : Values)
  | update_and_enqueue (owner_id hunt_id : String) (expect : Expect) (values : Values) (job : NewJob)
  | check_lease (lease : JobLease) (now : Instant)
  | call_jobs (svc : JobService) (call : JobCall)

/-- `enqueue` inside a transaction. -/
def Database.enqueue (db : Database) (owner_id hunt_id : String) (job : NewJob) : Option Database :=
  match job.svc.enqueue job.job_id owner_id hunt_id job.idempotency_key (some job.payload) none
      job.now db.jobs with
  | .ok (jobs, _) => some { db with jobs }
  | .error _ => none

/-- The effect of a transaction; `none` is a refusal. -/
def Transaction.effect : Transaction → Database → Option Database
  | .insert_hunt row, db => db.insertHunt row
  | .update _ owner_id hunt_id expect values, db => db.updateHunt owner_id hunt_id expect values
  | .update_and_enqueue owner_id hunt_id expect values job, db =>
      (db.updateHunt owner_id hunt_id expect values).bind (·.enqueue owner_id hunt_id job)
  | .check_lease lease now, db =>
      match JobService.require_lease lease.job_id lease.worker_id (some lease.generation)
          (some lease.deployment_scope_id) now db.jobs with
      | .ok _ => some db
      | .error _ => none
  | .call_jobs svc call, db => some { db with jobs := call.apply svc db.jobs }

/-! ### The world outside -/

/-- `QueryAssessment`. -/
structure QueryAssessment where
  query_id : Uuid
  body : Document
  deriving DecidableEq, Repr

/-- `FollowUpDecision`. -/
structure FollowUpDecision where
  question_id : String
  proposal : Option QueryProposal
  skip_reason : Option String
  deriving DecidableEq

/-- The structured outputs asked of the model. -/
inductive Contract
  | hunt_plan (sources : List String)
  | query_proposals
  | query_assessments
  | follow_up_decisions (question_ids : List String)
  | question_synthesis (pending : List String) (allow_retrieval : Bool)

/-- `contract_name`. -/
def Contract.name : Contract → String
  | .hunt_plan _ => "HuntPlan"
  | .query_proposals => "QueryProposal[]"
  | .query_assessments => "QueryAssessment[]"
  | .follow_up_decisions _ => "FollowUpDecision[]"
  | .question_synthesis _ _ => "QuestionSynthesis"

/-- What a response that meets the contract decodes to. -/
def Contract.Value : Contract → Type
  | .hunt_plan _ => HuntPlan
  | .query_proposals => List QueryProposal
  | .query_assessments => List QueryAssessment
  | .follow_up_decisions _ => List FollowUpDecision
  | .question_synthesis _ _ => Document

/-- Why a response ended. -/
inductive FinishReason
  | complete | refusal | length
  deriving DecidableEq, Repr

/-- One response of the model: its token usage, the length of its text, and the value the
text decodes to, or why it does not. -/
structure ModelResponse (contract : Contract) where
  input_tokens : Nat
  output_tokens : Nat
  finish_reason : FinishReason
  text_length : Nat
  decoded : Except String contract.Value

/-- A model request as the runner measures it. -/
structure ModelRequest where
  characters : Nat
  estimated_tokens : Nat
  deriving DecidableEq, Repr

/-- What the service asks. `prompt` is the request built for a contract, of which only the
size matters here; `complete` is one adapter call. An adapter may raise anything. -/
inductive Ask
  | now
  | uuid4
  | lease_signal
  | discover (plan : Option HuntPlan)
  | prompt (contract : Contract)
  | complete (contract : Contract) (repair : Bool)
  | submit (search_id : Uuid) (spl : Text) (earliest_utc latest_utc : Instant)
  | status (job_id : String)
  | fetch_results (job_id : String) (page limit max_bytes : Nat)
  | cancel_search (job_id : String)

/-- The type of each answer. -/
def Ask.Answer : Ask → Type
  | .now => Instant
  | .uuid4 => Uuid
  | .lease_signal => Bool
  | .discover _ => Except Fault SplunkDiscovery
  | .prompt _ => Except Fault ModelRequest
  | .complete contract _ => Except Fault (ModelResponse contract)
  | .submit _ _ _ _ => Except Fault String
  | .status _ => Except Fault Row
  | .fetch_results _ _ _ _ => Except Fault (List Row)
  | .cancel_search _ => Unit

/-- The service's questions and transactions. -/
def signature : Store.Signature Database where
  Question := Ask
  Answer := Ask.Answer
  Transaction := Transaction
  effect := Transaction.effect

abbrev Event := Store.Event signature
abbrev History := Store.History signature
abbrev Regime := Store.Regime signature

/-- A running client of the service. -/
abbrev Client := Store.Program signature (Except Fault Unit × BudgetCounters)

/-- A service procedure. Its memory is the usage counters of the attempt it belongs to. -/
abbrev Op (α : Type) := Store.Proc signature BudgetCounters Fault α

namespace Op

open Store

variable {α : Type}

/-- `raise e`. -/
def raise (e : Fault) : Op α := Proc.throw e

/-- Raise `e` if the condition holds. -/
def raiseIf (c : Prop) [Decidable c] (e : Fault) : Op Unit := if c then raise e else pure ()

/-- The value of a fallible pure computation. -/
def ofExcept (x : Except Fault α) : Op α := Proc.ofExcept x

/-- The value of an optional, or `e`. -/
def ofOption (x : Option α) (e : Fault) : Op α :=
  match x with
  | some a => pure a
  | none => raise e

/-- `_now()`. -/
def now : Op Instant := Proc.ask (S := signature) .now

/-- `uuid4()`. -/
def uuid4 : Op Uuid := Proc.ask (S := signature) .uuid4

/-- Is the event set that says the lease could not be renewed? -/
def lease_signal : Op Bool := Proc.ask (S := signature) .lease_signal

/-- `_owned_row`. -/
def owned_row (owner_id hunt_id : String) : Op HuntRow := do
  let db ← Proc.read
  ofOption (db.owned owner_id hunt_id) (.not_found "hunt not found")

/-- `_update`. -/
def update (writer : Writer) (owner_id hunt_id : String) (expect : Expect) (values : Values) :
    Op Unit := do
  let (_, accepted) ← Proc.commit (S := signature) (.update writer owner_id hunt_id expect values)
  raiseIf (accepted = false) (.conflict "hunt changed before the operation completed")

/-- `jobs.require_lease` for the lease of a worker. -/
def require_lease (lease : JobLease) : Op Unit := do
  let now ← now
  let (db, accepted) ← Proc.commit (S := signature) (.check_lease lease now)
  if accepted then pure ()
  else
    let _ ← ofExcept (JobService.require_lease lease.job_id lease.worker_id (some lease.generation)
      (some lease.deployment_scope_id) now db.jobs)
    pure ()

/-- The rule for `raiseIf`. -/
theorem safe_raiseIf {Γ : Regime} {c : Prop} [Decidable c] {e : Fault} {m : BudgetCounters} {h : History}
    {Q : Unit → BudgetCounters → History → Prop} {E : Fault → BudgetCounters → History → Prop}
    (hE : c → E e m h) (hQ : ¬c → Q () m h) : (raiseIf c e).Safe Γ m h Q E :=
  Proc.safe_ite (fun hc => Proc.safe_throw (hE hc)) fun hc => Proc.safe_pure (hQ hc)

/-- The rule for `now` where nothing is demanded. -/
theorem safe_now_free {admits : List Event → Event → Prop} {m : BudgetCounters} {h : History}
    {Q : Instant → BudgetCounters → History → Prop} {E : Fault → BudgetCounters → History → Prop}
    (hQ : ∀ (h' : History) (now : Instant), Q now m h') : now.Safe (.free admits) m h Q E :=
  Proc.safe_ask_free fun h' now _ => hQ _ now

end Op

/-! ### The service -/

/-- Pure code of other modules (hashing, reports, investigation and model context), of
which the workflow uses only what it returns. -/
structure Helpers where
  /-- SHA-256 of the canonical JSON of a plan. -/
  plan_sha256 : HuntPlan → String
  /-- `sha256_json` of an execution configuration snapshot's kind and payload. -/
  binding_sha256 : ExecutionBinding → String
  /-- `intelligence_sources`: the source IDs of a hunt's supplied text. -/
  intelligence_sources : Uuid → String → List String
  /-- `_validate_report_content`. -/
  validate_report_content : ReportContent → Option Results → Except Fault ReportContent
  /-- `_formatted_pdf`. -/
  formatted_pdf : String → ReportContent → Document
  /-- The `_concise_report_content` of the local demo. -/
  demo_report_content : HuntRow → Results → ReportContent
  /-- The results of the local demo, from its clock reading and fresh identifiers. -/
  demo_results : Instant → List Uuid → Results

/-- `WorkflowService`: one process's configuration. -/
structure Service where
  local_demo : Bool
  /-- `splunk_connector` and `model_adapter` are both configured. -/
  adapters_configured : Bool
  budget_limits : BudgetLimits
  execution_config : Document
  deployment_scope_id : String

/-- The `JobService` the workflow service builds for itself. -/
def Service.jobs (service : Service) : JobService where
  lease_seconds := 60
  deployment_scope_id := service.deployment_scope_id
  max_active_hunts := some service.budget_limits.max_active_hunts
  lease_pos := JobService.default_lease_pos
  max_active_pos n hn := by
    cases hn
    exact service.budget_limits.max_active_hunts_pos

/-- `_execution_binding_payload`. -/
def Service.binding (service : Service) : ExecutionBinding :=
  ⟨service.execution_config, service.budget_limits⟩

/-- `_validate_execution_snapshot`. -/
def Service.validate_execution_snapshot (helpers : Helpers) (service : Service)
    (snapshot : ConfigSnapshot) : Except Fault Unit :=
  if snapshot.payload ≠ service.binding then
    .error (.conflict "approved execution configuration content no longer matches current settings")
  else if snapshot.sha256 ≠ helpers.binding_sha256 service.binding then
    .error (.conflict "approved execution configuration hash is invalid")
  else .ok ()

end ThreatHunting
