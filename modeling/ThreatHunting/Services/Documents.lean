import ThreatHunting.Domain.Budgets
import ThreatHunting.Domain.Common
import ThreatHunting.Domain.State
import ThreatHunting.Lib.Json
import ThreatHunting.Services.Jobs
import ThreatHunting.Spl.Policy

/-!
# ThreatHunting.Services.Documents

The JSON documents stored in a hunt row, as typed records: the plan, the discovery
snapshot with the execution configuration bound to it, the approval, and the results an
execution checkpoints. A field that no modelled function looks into is a `Document`, the
text of its JSON.
-/

namespace ThreatHunting

open Spl (QueryProposal)

/-- A JSON document nothing modelled looks into. -/
abbrev Document := String

/-- A Splunk result row: a JSON object. -/
abbrev Row := List (String × Json)

/-! ### Plans -/

/-- `HuntScope`. -/
structure HuntScope where
  earliest_utc : Instant
  latest_utc : Instant
  indexes : List String
  sourcetypes : List String
  deriving DecidableEq, Repr

/-- `PlanDataSource`. -/
structure PlanDataSource where
  index : String
  sourcetypes : List String
  purpose : String
  deriving DecidableEq, Repr

/-- `PlanQuestion`. -/
structure PlanQuestion where
  question_id : String
  question : String
  rationale : String
  expected_information_gain : String
  deriving DecidableEq, Repr

/-- The fields only a production plan has: its identities, references and sources. -/
structure PlanHeader where
  plan_id : Uuid
  plan_version : Nat
  hunt_id : Uuid
  discovery_snapshot_id : Uuid
  execution_config_snapshot_id : Uuid
  intelligence_refs : List String
  data_sources : List PlanDataSource
  created_at_utc : Instant
  deriving DecidableEq, Repr

/-- A stored plan. A production plan is a `HuntPlan` and has a header; a demo plan has none. -/
structure HuntPlan where
  header : Option PlanHeader
  hypothesis : String
  objective : String
  scope : HuntScope
  questions : List PlanQuestion
  query_strategy : List String
  coverage_limitations : List String
  deriving DecidableEq, Repr

/-- `{(source.index, kind) for source in plan.data_sources for kind in source.sourcetypes}`. -/
def PlanHeader.pairs (header : PlanHeader) : List (String × String) :=
  header.data_sources.flatMap fun source => source.sourcetypes.map fun kind => (source.index, kind)

/-- Two lists with the same members (`set(…) == set(…)`). -/
def sameSet {α : Type} [DecidableEq α] (xs ys : List α) : Bool := xs.all (· ∈ ys) && ys.all (· ∈ xs)

/-- The contract a `HuntPlan` must satisfy beyond its field types. -/
def HuntPlan.wellFormed (plan : HuntPlan) (header : PlanHeader) : Bool :=
  0 < header.plan_version && plan.scope.earliest_utc < plan.scope.latest_utc &&
    (plan.hypothesis :: plan.objective :: plan.scope.indexes ++ plan.scope.sourcetypes ++
      header.intelligence_refs ++ plan.query_strategy ++ plan.coverage_limitations ++
      header.data_sources.flatMap (fun s => s.index :: s.purpose :: s.sourcetypes) ++
      plan.questions.flatMap fun q =>
        [q.question_id, q.question, q.rationale, q.expected_information_gain]).all (· ≠ "")

/-- `HuntPlan.model_validate`: the production part of a plan that meets the contract. -/
def HuntPlan.model_validate (plan : HuntPlan) : Except Fault PlanHeader :=
  match plan.header with
  | some header =>
      if plan.wellFormed header then .ok header else .error (.value_error "HuntPlan")
  | none => .error (.value_error "HuntPlan")

theorem HuntPlan.model_validate_eq_ok {plan : HuntPlan} {header : PlanHeader}
    (h : plan.model_validate = .ok header) : plan.header = some header := by
  unfold model_validate at h
  split at h
  next hd hh =>
    split at h
    · cases h
      exact hh
    · cases h
  next => cases h

/-- `_validate_plan`: a scope, at least one question, and question IDs that are nonempty,
stripped, not `unknown`, and unique. Raises or returns the plan. -/
def validate_plan (plan : HuntPlan) : Except Fault HuntPlan :=
  let ids := plan.questions.map fun q => q.question_id.toList
  if plan.questions.isEmpty then
    .error (.validation "plan requires scope and at least one question")
  else if ids.any (fun id => strip id = [] || strip id ≠ id || casefold id = "unknown".toList) ||
      !decide ids.Nodup then
    .error (.validation "plan question IDs must be nonempty, unique, and not unknown")
  else .ok plan

theorem validate_plan_eq_ok {plan plan' : HuntPlan}
    (h : validate_plan plan = .ok plan') : plan' = plan := by
  unfold validate_plan at h
  simp only at h
  split at h
  · cases h
  split at h
  · cases h
  cases h
  rfl

/-! ### Snapshots and approval -/

/-- The payload of the execution configuration snapshot. -/
structure ExecutionBinding where
  execution_config : Document
  budget_limits : BudgetLimits
  deriving DecidableEq

/-- The stored execution configuration snapshot. -/
structure ConfigSnapshot where
  snapshot_id : Uuid
  payload : ExecutionBinding
  sha256 : String
  deriving DecidableEq

/-- What `SplunkConnector.discover` returns, as far as planning and execution use it. -/
structure SplunkDiscovery where
  indexes : List String
  sourcetypes : List String
  fields : List String
  representative_schemas : List (String × List String)
  coverage_limitations : List String
  deriving DecidableEq, Repr

/-- The payload of a discovery snapshot: the discovery and, for a scoped one, what was sampled. -/
structure DiscoveryPayload where
  discovery : SplunkDiscovery
  schema_requested_scope : Option HuntScope
  source_pairs : List (String × String)
  deriving DecidableEq, Repr

/-- Which discovery made a snapshot. -/
inductive SnapshotMode
  | production | deterministic_local_demo
  deriving DecidableEq, Repr

/-- The stored discovery snapshot. `intelligence_sources` are the source IDs of its input context. -/
structure DiscoverySnapshot where
  snapshot_id : Uuid
  payload : DiscoveryPayload
  execution_config_snapshot : Option ConfigSnapshot
  intelligence_sources : List String
  mode : SnapshotMode
  deriving DecidableEq

/-- The stored approval of one plan version. -/
structure Approval where
  approval_id : Uuid
  plan_version : Option Nat
  plan_sha256 : String
  approved_by_user_id : String
  approved_at_utc : Instant
  analyst_note : String
  execution_config_snapshot_id : Option Uuid
  execution_config_sha256 : Option String
  deriving DecidableEq, Repr

/-- `validate_intelligence_refs`. -/
def validate_intelligence_refs (refs sources : List String) : Bool := refs.all (· ∈ sources)

/-! ### Results -/

/-- The status of a `query_ledger` entry. -/
inductive QueryStatus
  | planned | submitted | completed | skipped_time_cutoff | skipped_budget | timed_out
  deriving DecidableEq, Repr

/-- The statuses `_run_checkpoint_queries` passes over. -/
def QueryStatus.closed : QueryStatus → Bool
  | .planned | .submitted => false
  | .completed | .skipped_time_cutoff | .skipped_budget | .timed_out => true

/-- What a completed query's result amounts to. -/
structure ResultSummary where
  result_count : Nat
  result_bytes : Nat
  truncated : Bool
  available_result_count : Option Nat
  retrieval_stop_reason : Option String
  result_pages : Nat
  deriving DecidableEq, Repr

/-- Who planned a ledger entry. -/
inductive QueryPhase
  | initial
  | source_coverage (source_query_id : Uuid) (source_pair : String × String)
  | adaptive_follow_up
  deriving DecidableEq, Repr

/-- An entry of `query_ledger`. -/
structure LedgerEntry where
  query_id : Uuid
  proposal : QueryProposal
  phase : QueryPhase
  status : QueryStatus
  splunk_job_id : Option String
  submitted_at_utc : Option Instant
  completed_at_utc : Option Instant
  result : Option ResultSummary
  deriving DecidableEq

/-- An entry of `queries`. -/
structure QueryRecord where
  query_id : Uuid
  question_id : Text
  splunk_job_id : String
  purpose : Text
  spl : Text
  earliest_utc : Instant
  latest_utc : Instant
  result : ResultSummary
  result_mode : Spl.ResultMode
  deriving DecidableEq

/-- `EvidenceKind`, the two kinds an execution makes. -/
inductive EvidenceKind
  | raw_event | aggregate_row
  deriving DecidableEq, Repr

/-- `EvidenceRecord`. -/
structure Evidence where
  evidence_id : Uuid
  hunt_id : Uuid
  query_id : Uuid
  splunk_job_id : String
  evidence_kind : EvidenceKind
  index : String
  sourcetype : String
  event_time_utc : String
  collected_at_utc : Instant
  source_event_ref : String
  selected_result : Row
  sha256 : String

/-- `QueryExecution`: the normalised result of one search. -/
structure QueryExecution where
  query_id : Uuid
  splunk_job_id : String
  normalized_spl : Text
  rows : List Row
  result_bytes : Nat
  truncated : Bool
  available_result_count : Option Nat
  retrieval_stop_reason : Option String
  result_pages : Nat

/-- A proposal the SPL policy or the application rejected. -/
structure PolicyRejection where
  query_id : Option Uuid
  proposal : QueryProposal
  reason_codes : List String
  deriving DecidableEq

/-- A question under investigation: a plan question or a follow-up. -/
structure Question where
  question_id : String
  question : String
  rationale : String
  expected_information_gain : String
  approved_question : Bool
  source_evidence_ids : List Uuid
  deriving DecidableEq, Repr

/-- A recorded follow-up decision. -/
structure DecisionRecord where
  question_id : String
  proposal : Option QueryProposal
  skip_reason : Option String
  decision_source : Option String
  considered_query_ids : Option (List Uuid)
  deriving DecidableEq

/-- The answer to one plan question. -/
structure QuestionAnswer where
  question_id : String
  body : Document
  deriving DecidableEq, Repr

/-- A retained page the synthesis asked for. -/
structure RetrievedPage where
  page : Document
  retrieval_round : Nat
  deriving DecidableEq, Repr

/-- The `failure` of a failed hunt. -/
structure FailureDiagnostic where
  category : FailureCategory
  error_type : String
  deriving DecidableEq, Repr

/-- The `results` document an execution checkpoints. A key the document may lack is an option. -/
structure Results where
  findings : List Document := []
  evidence : List Evidence := []
  queries : List QueryRecord := []
  query_ledger : Option (List LedgerEntry) := none
  usage : Option BudgetCounters := none
  execution_started_at_utc : Option Instant := none
  query_policy_rejections : Option (List PolicyRejection) := none
  adaptive_complete : Bool := false
  adaptive_status : Option String := none
  assessment_validation_rejections : List Document := []
  latest_assessment_round : Option Document := none
  query_assessments : List Document := []
  follow_up_questions : List Question := []
  follow_up_decisions : List DecisionRecord := []
  assessed_query_ids : List Uuid := []
  pending_question_ids : List String := []
  question_answers : List QuestionAnswer := []
  synthesis_retrieval_status : Option String := none
  synthesis_retrievals : List RetrievedPage := []
  failure : Option FailureDiagnostic := none

instance : Inhabited Results := ⟨{}⟩

/-- A report: the section of observed activity, if it has one, and the rest. -/
structure ReportContent where
  observed_activity : Option Document
  body : Document
  deriving DecidableEq, Repr

end ThreatHunting
