import ThreatHunting.Services.Checkpoint
import ThreatHunting.Services.Review
import ThreatHunting.Spl.Policy

/-!
# ThreatHunting.Services.Execution

`execute_job`: one worker's attempt at a hunt, from its durable checkpoint. A QUEUED hunt
gets its queries planned by the model; a RUNNING one resumes them. Queries are executed in
ledger order and each result is checkpointed; assessment rounds may plan more; a synthesis
loop answers the plan's questions; and the hunt ends as a draft report or, after an
exception, as FAILED.

Every loop whose length the code does not bound takes `fuel`. An attempt that runs out of
it is one that is not heard of again, like one that crashed there.
-/

namespace ThreatHunting

open Store Op
open Spl (QueryProposal QueryValidationResult SPLPolicy)

/-! ### What the worker takes from other modules -/

/-- One source of a query whose result was truncated, as `query_source_coverage` reports it. -/
structure SourceCoverage where
  query_id : Uuid
  source : String × String
  needs_source_check : Bool
  coverage_query_id : Option Uuid
  deriving DecidableEq, Repr

/-- What `evidence_for_query` derives from one row. -/
structure RowDescription where
  evidence_kind : EvidenceKind
  index : String
  sourcetype : String
  event_time_utc : String
  source_event_ref : String
  sha256 : String
  deriving DecidableEq, Repr

/-- Pure code of the evidence, investigation and report modules, of which the worker uses
only what it returns. -/
structure Investigation where
  /-- The Unicode tables and the cache digest of the SPL policy. -/
  unicode : UnicodeData
  cache_digest : Spl.CacheDigest
  /-- The fields of an evidence record, or what its validation raises. -/
  describe_row : QueryProposal → Row → Except Fault RowDescription
  /-- `query_source_coverage`, one entry for each query and source. -/
  query_source_coverage : Results → List SourceCoverage
  /-- The proposal of a source check, narrowed to one source pair. -/
  constrain : QueryProposal → String × String → Uuid → Except Fault QueryProposal
  /-- The queries of `_assessment_context`, each with the evidence it shows. -/
  assessment_context : HuntPlan → Results → List Uuid → String → Nat → List (Uuid × List Evidence)
  /-- `_materialize_follow_up_questions`. -/
  materialize_follow_up_questions : List QueryAssessment → Results → List Uuid →
    Except Fault (List Document × List Question)
  /-- The failed queries of `_assessment_repair_context`. -/
  assessment_repair_query_ids : List QueryAssessment → Results → Except Fault (List Uuid)
  /-- `_balanced_evidence_sample`. -/
  balanced_evidence_sample : List Evidence → List QueryRecord → List Uuid → Nat → List Evidence
  /-- `_widen_follow_up_decisions_for_lead_coverage`. -/
  widen_follow_up_decisions : List FollowUpDecision → List Question → List Evidence → List Uuid →
    String → List FollowUpDecision
  /-- `_follow_up_proposal_errors`, by question ID. -/
  follow_up_proposal_errors : List QueryProposal → List Question → List Evidence → List (Text × String)
  /-- Does the complete synthesis context omit retained rows? -/
  synthesis_sample_omitted : HuntPlan → String → Results → Nat → Bool
  /-- `_retained_synthesis_pages`. -/
  retained_synthesis_pages : Document → HuntPlan → Results → Except Fault (List Document)
  /-- `_materialize_question_answers`: findings and answers. -/
  materialize_question_answers : Document → HuntPlan → Results → String →
    Except Fault (List Document × List QuestionAnswer)
  /-- The answer that leaves every pending question open. -/
  limited_answer : HuntPlan → Document
  /-- `_execution_report_content`. -/
  execution_report_content : HuntRow → HuntPlan → Results → ReportContent

/-- `_pending_investigation_questions`: plan questions and follow-ups that no completed query
and no current skip covers, each once. -/
def pending_investigation_questions (plan : HuntPlan) (results : Results) (new_questions : List Question) :
    List Question :=
  let completed := results.queries.map fun q => String.ofList q.question_id
  let completed_ids := results.queries.map (·.query_id)
  let skips := fun (d : DecisionRecord) => d.skip_reason.isSome &&
    (match d.considered_query_ids with
      | none => true
      | some ids => d.decision_source = some "application_duplicate_suppression" || sameSet ids completed_ids)
  let skipped := fun (id : String) =>
    (results.follow_up_decisions.reverse.find? (·.question_id = id)).any skips
  let questions := (plan.questions.map fun q => {
      question_id := q.question_id, question := q.question, rationale := q.rationale
      expected_information_gain := q.expected_information_gain, approved_question := true
      source_evidence_ids := [] : Question }) ++ results.follow_up_questions ++ new_questions
  (questions.filter fun q => q.question_id ∉ completed && !skipped q.question_id).foldl
    (fun pending q => if pending.any (·.question_id = q.question_id) then pending else pending ++ [q]) []

namespace WorkflowService

/-- One worker's attempt: the service it runs in and the lease it holds. -/
structure Worker where
  helpers : Helpers
  investigation : Investigation
  service : Service
  lease : JobLease

namespace Worker

variable (w : Worker)

/-- The budget limits the worker runs under. -/
def limits : BudgetValues := w.service.budget_limits.toBudgetValues

/-- `require_lease` of the attempt. -/
def require_lease : Op Unit := Op.require_lease w.lease

/-- The hunt's row. -/
def row : Op HuntRow := owned_row w.lease.owner_id w.lease.hunt_id

/-- An update by this worker. `completed` is the search it stores, if it stores one. -/
def update (completed : Option QueryExecution) (expect : Expect) (values : Values) : Op Unit :=
  Op.update (.execute_job w.lease completed) w.lease.owner_id w.lease.hunt_id expect values

/-- Checkpoint a results document while the hunt is in `state`. -/
def checkpoint (completed : Option QueryExecution) (state : HuntState) (results : Results) :
    Op Unit := do
  let updated ← now
  w.update completed { state := some state } { results := some results, updated_at_utc := updated }

/-- `_HuntCancellationToken.is_cancelled`. -/
def is_cancelled : Op Bool := do
  let signal ← lease_signal
  if signal = true then pure true
  else
    let check : Op Bool := do
      w.require_lease
      let row ← w.row
      pure (row.state = .cancelled)
    check.handle fun e =>
      match e with
      | .job_conflict _ | .not_found _ => pure true
      | _ => raise e

/-- Raise if the hunt or the lease is gone. -/
def raiseIfCancelled (operation : String) : Op Unit := do
  let cancelled ← w.is_cancelled
  raiseIf (cancelled = true) (.adapter_error .cancelled "operation cancelled" operation)

/-! ### Policy and planning -/

/-- The SPL policy of the attempt. -/
def policy (plan : HuntPlan) (header : PlanHeader) (payload : DiscoveryPayload) : SPLPolicy where
  discovered_indexes := payload.discovery.indexes.map (·.toList)
  discovered_sourcetypes := payload.discovery.sourcetypes.map (·.toList)
  discovered_fields := payload.discovery.fields.map (·.toList)
  approved_indexes := plan.scope.indexes.map (·.toList)
  approved_sourcetypes := plan.scope.sourcetypes.map (·.toList)
  approved_earliest_utc := plan.scope.earliest_utc
  approved_latest_utc := plan.scope.latest_utc
  connection_id := w.service.deployment_scope_id.toList
  execution_config_snapshot_id := header.execution_config_snapshot_id.toList
  max_results_by_mode := Spl.queryResultLimits
  max_bytes := w.limits.max_cached_bytes_per_query
  timeout_seconds := w.limits.splunk_query_timeout_seconds

/-- `policy.validate`, without the identifier it makes. -/
def judge (policy : SPLPolicy) (open_question_ids : Option (List String)) (proposal : QueryProposal) :
    Except Fault QueryValidationResult :=
  match policy.validate w.investigation.unicode w.investigation.cache_digest proposal
      (open_question_ids.map (·.map (·.toList))) with
  | .ok v => .ok v
  | .error (.valueError message) => .error (.value_error message)
  | .error .stopIteration => .error (.value_error "StopIteration")

/-- `policy.validate`: a fresh identifier and the verdict. -/
def validate (policy : SPLPolicy) (open_question_ids : Option (List String)) (proposal : QueryProposal) :
    Op (QueryProposal × Uuid × QueryValidationResult) := do
  let query_id ← uuid4
  let v ← ofExcept (w.judge policy open_question_ids proposal)
  pure (proposal, query_id, v)

/-- The rejections among validated proposals. -/
def rejections (validated : List (QueryProposal × Uuid × QueryValidationResult)) : List PolicyRejection :=
  (validated.filter fun x => !x.2.2.allowed).map fun x => ⟨some x.2.1, x.1, x.2.2.reason_codes⟩

/-- `", ".join(sorted({…}))` over the reason codes of rejections. -/
def reasonText (rejected : List PolicyRejection) : String :=
  ", ".intercalate ((rejected.flatMap (·.reason_codes)).eraseDups.mergeSort)

/-- `_persist_policy_rejections`. -/
def persist_policy_rejections (rejected : List PolicyRejection) (expected_state : HuntState) : Op Unit := do
  if rejected.isEmpty then pure ()
  else
    let current ← w.row
    let results := current.results.getD {}
    w.checkpoint none expected_state
      { results with query_policy_rejections := some (results.query_policy_rejections.getD [] ++ rejected) }

/-- The planned entries of proposals, which the policy must still allow. -/
def ledgerEntry (policy : SPLPolicy) (open_question_ids : List String) (proposal : QueryProposal) :
    Op LedgerEntry := do
  let (_, query_id, v) ← w.validate policy (some open_question_ids) proposal
  raiseIf (v.allowed = false)
    (.adapter_error .query_policy_rejected "SPL query rejected by deterministic policy"
      "splunk.validate_query")
  pure (.plan query_id proposal .initial)

/-- The proposals a rejected batch is replaced by. -/
def repairProposals (policy : SPLPolicy) (open_question_ids : List String) (runner : StrictModelRunner)
    (rejected : List PolicyRejection) : Op (List QueryProposal) := do
  w.persist_policy_rejections rejected .queued
  let proposals : List QueryProposal ← runner.repair_once .query_proposals
  let validated ← Proc.collect (w.validate policy (some open_question_ids)) proposals
  let repaired_rejections := rejections validated
  if repaired_rejections.isEmpty then pure proposals
  else
    w.persist_policy_rejections repaired_rejections .queued
    raise (.adapter_error .query_policy_rejected
      ("SPL query rejected by deterministic policy: " ++ reasonText repaired_rejections)
      "splunk.validate_query")

/-- `_draft_execution_ledger`. -/
def draft_execution_ledger (policy : SPLPolicy) (open_question_ids : List String) : Op (List LedgerEntry) := do
  let runner : StrictModelRunner := { limits := w.limits, deadline := none, is_cancelled := w.is_cancelled }
  let proposals : List QueryProposal ← runner.run .query_proposals
  let validated ← Proc.collect (w.validate policy (some open_question_ids)) proposals
  let rejected := rejections validated
  let proposals ← (if rejected.isEmpty then pure proposals
    else w.repairProposals policy open_question_ids runner rejected)
  Proc.collect (w.ledgerEntry policy open_question_ids) proposals

/-! ### Checkpointed queries -/

/-- The clock limits of an execution. -/
structure Deadlines where
  deadline : Instant
  query_start_deadline : Instant
  investigation_deadline : Instant
  deriving DecidableEq, Repr

/-- The clock limits of an execution that started at `started`. -/
def deadlines (started : Instant) : Deadlines :=
  let deadline := started + seconds w.limits.hard_hunt_seconds
  let query_start_deadline := started + seconds w.limits.query_start_cutoff_seconds
  { deadline, query_start_deadline
    investigation_deadline := min
      (query_start_deadline + seconds w.limits.max_inflight_query_seconds_after_cutoff)
      (deadline - seconds w.limits.synthesis_allowance_seconds) }

/-- `on_submitted`: persist the job a query was submitted as. -/
def on_submitted (query_id : Uuid) (sid : String) (_proposal : QueryProposal) : Op Unit := do
  w.raiseIfCancelled "splunk.submit"
  w.require_lease
  let current ← w.row
  let submitted_at ← now
  let counters ← Proc.get
  let results ← ofExcept
    ((current.results.getD {}).record_submitted query_id sid submitted_at counters)
  w.checkpoint none .running results

/-- `on_rejected`. -/
def on_rejected (proposal : QueryProposal) (query_id : Uuid) (v : QueryValidationResult) : Op Unit :=
  w.persist_policy_rejections [⟨some query_id, proposal, v.reason_codes⟩] .running

/-- The executor of the attempt. -/
def executor (policy : SPLPolicy) (open_question_ids : List String) (d : Deadlines) :
    ProductionHuntExecutor where
  limits := w.service.budget_limits
  validate := w.judge policy (some open_question_ids)
  is_cancelled := w.is_cancelled
  deadline := some d.investigation_deadline
  on_submitted := w.on_submitted
  on_rejected := w.on_rejected

/-- `evidence_for_query`: one record for each retained row. -/
def evidence_for_query (execution : QueryExecution) (proposal : QueryProposal) : Op (List Evidence) := do
  let collected ← now
  Proc.collect (fun row => do
    let evidence_id ← uuid4
    let d ← ofExcept (w.investigation.describe_row proposal row)
    pure {
      evidence_id, hunt_id := w.lease.hunt_id, query_id := execution.query_id
      splunk_job_id := execution.splunk_job_id, evidence_kind := d.evidence_kind, index := d.index
      sourcetype := d.sourcetype, event_time_utc := d.event_time_utc, collected_at_utc := collected
      source_event_ref := d.source_event_ref, selected_result := row, sha256 := d.sha256 : Evidence })
    execution.rows

/-- How executing a query ended: it was stopped with a status, or it has a result. -/
inductive QueryOutcome
  | stopped (status : QueryStatus)
  | executed (execution : QueryExecution)

/-- The status an exception of `execute_query` stops a query with, if it does. -/
def stopStatus : Fault → Option QueryStatus
  | .adapter_error .hard_timeout _ _ => some .timed_out
  | .adapter_error .budget_exhausted _ _ => some .skipped_budget
  | _ => none

/-- The job and submission time recorded for a submitted entry. -/
def recordedJob (entry : LedgerEntry) : Except Fault (Option (String × Instant)) :=
  if entry.status = .submitted then
    match entry.splunk_job_id, entry.submitted_at_utc with
    | some sid, some submitted_at => .ok (some (sid, submitted_at))
    | some _, none => .error (.conflict "recorded query submission time is malformed")
    | none, _ => .ok none
  else .ok none

/-- Execute or resume one open entry. -/
def execute_entry (executor : ProductionHuntExecutor) (d : Deadlines) (fuel : Nat) (entry : LedgerEntry) :
    Op QueryOutcome := do
  let cutoff ← (if entry.status = .planned then do
      let now ← now
      pure (decide (d.query_start_deadline ≤ now))
    else pure false)
  if cutoff = true then pure (.stopped .skipped_time_cutoff)
  else
    let job ← ofExcept (recordedJob entry)
    let run : Op QueryOutcome := do
      let execution ← executor.execute_query fuel entry.proposal entry.query_id
        (job.map (·.1)) (job.map (·.2))
      pure (.executed execution)
    run.handle fun e =>
      match stopStatus e with
      | some status => pure (.stopped status)
      | none => raise e

/-- Checkpoint a stopped query. -/
def checkpoint_stopped (query_id : Uuid) (status : QueryStatus) : Op Unit := do
  w.require_lease
  let current ← w.row
  let stopped_at ← now
  let counters ← Proc.get
  w.checkpoint none .running ((current.results.getD {}).record_stopped query_id status stopped_at counters)

/-- Checkpoint a completed query with its evidence. -/
def checkpoint_completed (execution : QueryExecution) (proposal : QueryProposal) : Op Unit := do
  let evidence ← w.evidence_for_query execution proposal
  w.require_lease
  let current ← w.row
  let completed_at ← now
  let counters ← Proc.get
  let results ← ofExcept
    ((current.results.getD {}).record_completed execution proposal evidence completed_at counters)
  w.checkpoint (some execution) .running results

/-- One turn of `_run_checkpoint_queries`: the entry at a position of the ledger. -/
def run_checkpoint_query (executor : ProductionHuntExecutor) (d : Deadlines) (fuel position : Nat) :
    Op Unit := do
  let current ← w.row
  let entry ← ofOption (current.results.getD {}).ledger[position]?
    (.conflict "query checkpoint changed during recovery")
  if entry.status.closed then pure ()
  else
    let outcome ← execute_entry executor d fuel entry
    match outcome with
    | .stopped status => w.checkpoint_stopped entry.query_id status
    | .executed execution => w.checkpoint_completed execution entry.proposal

/-- `_run_checkpoint_queries`: every entry of the ledger, in order. -/
def run_checkpoint_queries (executor : ProductionHuntExecutor) (d : Deadlines) (fuel : Nat) : Op Unit := do
  let current ← w.row
  let positions := List.range (current.results.getD {}).ledger.length
  let _ ← Proc.collect (w.run_checkpoint_query executor d fuel) positions
  pure ()

/-! ### Assessment rounds -/

/-- The source checks a truncated result calls for, as long as queries are available. -/
def sourceChecks (policy : SPLPolicy) (ledger : List LedgerEntry) (available : Nat) :
    List SourceCoverage → List LedgerEntry → Op (List LedgerEntry)
  | [], planned => pure planned
  | c :: cs, planned =>
      match ledger.reverse.find? (·.query_id = c.query_id) with
      | none => sourceChecks policy ledger available cs planned
      | some original =>
          if c.needs_source_check = false ∨ c.coverage_query_id.isSome ∨ available ≤ planned.length then
            sourceChecks policy ledger available cs planned
          else do
            let proposal ← ofExcept
              (w.investigation.constrain original.proposal c.source c.query_id)
            let (_, query_id, v) ← w.validate policy none proposal
            raiseIf (v.allowed = false)
              (.adapter_error .query_policy_rejected
                ("Source coverage search rejected: " ++ ", ".intercalate v.reason_codes)
                "splunk.validate_query")
            sourceChecks policy ledger available cs
              (planned ++ [.plan query_id proposal (.source_coverage c.query_id c.source)])

/-- The source checks of a round, if the budget allows any. -/
def planSourceChecks (policy : SPLPolicy) (results : Results) : Op (List LedgerEntry) := do
  let counters ← Proc.get
  let available := w.limits.max_splunk_queries - counters.splunk_queries
  if 0 < available ∧ counters.model_calls + 1 < w.limits.max_model_calls ∧
      counters.agent_cycles < w.limits.max_agent_cycles then
    w.sourceChecks policy results.ledger available
      (w.investigation.query_source_coverage results) []
  else pure []

/-- The runner of a round: it leaves one call and half of the tokens for the synthesis. -/
def roundRunner (counters : BudgetCounters) (deadline : Instant) : StrictModelRunner where
  limits := { w.limits with
    max_model_calls := w.limits.max_model_calls - 1
    max_model_input_tokens := counters.model_input_tokens +
      (w.limits.max_model_input_tokens - counters.model_input_tokens) / 2
    max_model_output_tokens := counters.model_output_tokens +
      (w.limits.max_model_output_tokens - counters.model_output_tokens) / 2 }
  deadline := some deadline
  is_cancelled := w.is_cancelled

/-- The corrected assessments, with those that needed no repair. -/
def mergeAssessments (groups : List Uuid) (original repaired : List QueryAssessment) (repair_ids : List Uuid) :
    List QueryAssessment :=
  groups.filterMap fun id =>
    (original.find? fun a => a.query_id = id && a.query_id ∉ repair_ids) <|>
      repaired.find? (·.query_id = id)

/-- Replace the last stored assessment rejection. -/
def setRejection (results : Results) (rejection : Document) : Results :=
  { results with
    assessment_validation_rejections := results.assessment_validation_rejections.dropLast ++ [rejection] }

/-- One repair of assessments whose validation failed, stored before and after. -/
def repairAssessments (runner : StrictModelRunner) (results evidence_results : Results) (groups : List Uuid)
    (pending : List Uuid) (assessments : List QueryAssessment) (reason : String) :
    Op ((List Document × List Question) × Results) := do
  let results := { results with
    assessment_validation_rejections := results.assessment_validation_rejections ++ [reason] }
  w.checkpoint none .running results
  let repair : Op (List Document × List Question) := do
    let repair_ids ← ofExcept
      (w.investigation.assessment_repair_query_ids assessments evidence_results)
    let repaired : List QueryAssessment ← runner.repair_once .query_assessments
    let _ ← ofExcept
      (w.investigation.materialize_follow_up_questions repaired evidence_results repair_ids)
    ofExcept (w.investigation.materialize_follow_up_questions
      (mergeAssessments groups assessments repaired repair_ids) evidence_results pending)
  let materialized ← repair.handle fun e => do
    w.checkpoint none .running (setRejection results (reason ++ " (rejected)"))
    raise e
  let results := setRejection results (reason ++ " (accepted)")
  w.checkpoint none .running results
  pure (materialized, results)

/-- The assessments of the new results, and the questions they raise. -/
def assess (runner : StrictModelRunner) (plan : HuntPlan) (current : HuntRow) (results : Results)
    (pending : List Uuid) : Op ((List Document × List Question) × Results × Results) := do
  let context := w.investigation.assessment_context plan results pending current.threat_intelligence
    w.limits.max_representative_events
  let evidence_results := { results with evidence := context.flatMap (·.2) }
  let assessments : List QueryAssessment ← (if pending.isEmpty then pure []
    else runner.run .query_assessments)
  match w.investigation.materialize_follow_up_questions assessments evidence_results pending with
  | .ok materialized => pure (materialized, results, evidence_results)
  | .error (.validation reason) => do
      let (materialized, results) ← w.repairAssessments runner results evidence_results
        (context.map (·.1)) pending assessments reason
      pure (materialized, results, evidence_results)
  | .error e => raise e

/-- The decisions in the order of the questions. -/
def ordered (question_ids : List String) (decisions : List FollowUpDecision) : List FollowUpDecision :=
  question_ids.filterMap fun id => decisions.find? (·.question_id = id)

/-- The rejections of follow-up proposals, by the application and by the policy. -/
def followUpRejections (policy : SPLPolicy) (allowed_ids : List String) (errors : List (Text × String))
    (proposals : List QueryProposal) : Op (List PolicyRejection) := do
  let validated ← Proc.collect (w.validate policy (some allowed_ids)) proposals
  pure (proposals.filterMap (fun p =>
      (errors.find? (·.1 = p.question_id)).map fun e => ⟨none, p, [e.2]⟩) ++ rejections validated)

/-- The decisions of a round after at most one repair of rejected ones. -/
def decide_ (runner : StrictModelRunner) (policy : SPLPolicy) (open_question_ids : List String)
    (current : HuntRow) (results evidence_results : Results) (questions : List Question) :
    Op (List FollowUpDecision) := do
  let ids := questions.map (·.question_id)
  let pivot := w.investigation.balanced_evidence_sample results.evidence results.queries
    (questions.flatMap (·.source_evidence_ids)) w.limits.max_targeted_events
  let widen := fun ds => w.investigation.widen_follow_up_decisions ds questions
    evidence_results.evidence (results.queries.map (·.query_id)) current.threat_intelligence
  let errorsOf := fun (ds : List FollowUpDecision) =>
    w.investigation.follow_up_proposal_errors (ds.filterMap (·.proposal)) questions pivot
  let answered : List FollowUpDecision ← runner.run (.follow_up_decisions ids)
  let decisions := widen (ordered ids answered)
  let rejected ← w.followUpRejections policy (open_question_ids ++ ids) (errorsOf decisions)
    (decisions.filterMap (·.proposal))
  if rejected.isEmpty then pure decisions
  else
    w.persist_policy_rejections rejected .running
    let rejected_ids := rejected.map fun r => String.ofList r.proposal.question_id
    let accepted := decisions.filter (·.question_id ∉ rejected_ids)
    let repaired : List FollowUpDecision ←
      runner.repair_once (.follow_up_decisions (ids.filter (· ∈ rejected_ids)))
    let decisions := widen (ordered ids (repaired ++ accepted))
    let errors := errorsOf decisions
    if errors.isEmpty then pure decisions
    else
      w.persist_policy_rejections ((decisions.filterMap (·.proposal)).filterMap fun p =>
        (errors.find? (·.1 = p.question_id)).map fun e => ⟨none, p, [e.2]⟩) .running
      raise (.validation ("; ".intercalate ((errors.map (·.2)).eraseDups.mergeSort)))

/-- The identity under which two searches are the same. -/
abbrev SearchIdentity := Text × Spl.ResultMode

/-- The identities of the completed queries. -/
def completedIdentity (policy : SPLPolicy) (entry : LedgerEntry) :
    Op (Option (SearchIdentity × String)) := do
  let (_, _, v) ← w.validate policy none entry.proposal
  match v.allowed, v.cache_key with
  | true, some key =>
      pure (some ((key, entry.proposal.result_mode), "completed query " ++ entry.query_id))
  | _, _ => pure none

/-- What planning the follow-ups of a round yields. -/
structure FollowUps where
  ledger : List LedgerEntry
  duplicates : List (String × String)
  rejected : List PolicyRejection

/-- Plan each follow-up that no earlier search covers. -/
def planFollowUps : List (QueryProposal × Uuid × QueryValidationResult) → List (SearchIdentity × String) →
    FollowUps
  | [], _ => ⟨[], [], []⟩
  | (proposal, query_id, v) :: rest, seen =>
      if v.allowed = false then
        let planned := planFollowUps rest seen
        { planned with rejected := ⟨some query_id, proposal, v.reason_codes⟩ :: planned.rejected }
      else
        let identity : SearchIdentity := (v.cache_key.getD [], proposal.result_mode)
        let question := String.ofList proposal.question_id
        match seen.reverse.find? (·.1 = identity) with
        | some (_, covered) =>
            let planned := planFollowUps rest seen
            { planned with duplicates := (question,
                "Application skipped an identical search already covered by " ++ covered ++
                "; SPL, time bounds, result mode and limits are unchanged. " ++
                "This question was not separately searched.") :: planned.duplicates }
        | none =>
            let planned := planFollowUps rest (seen ++ [(identity, "planned question " ++ question)])
            { planned with ledger := .plan query_id proposal .adaptive_follow_up :: planned.ledger }

/-- The stored form of a round's decisions. -/
def decisionRecord (duplicates : List (String × String)) (completed_ids : List Uuid) (d : FollowUpDecision) :
    DecisionRecord :=
  match duplicates.find? (·.1 = d.question_id) with
  | some (_, reason) => ⟨d.question_id, none, some reason, some "application_duplicate_suppression", none⟩
  | none => ⟨d.question_id, d.proposal, d.skip_reason, none, some completed_ids⟩

/-- Plan the follow-ups of a round into the stored ledger. -/
def planRound (policy : SPLPolicy) (allowed_ids : List String) (results : Results)
    (decisions : List FollowUpDecision) : Op (Results × String) := do
  let completed_ids := results.queries.map (·.query_id)
  let seen ← Proc.collect (w.completedIdentity policy)
    (results.ledger.filter (·.query_id ∈ completed_ids))
  let validated ← Proc.collect (w.validate policy (some allowed_ids)) (decisions.filterMap (·.proposal))
  let planned := planFollowUps validated (seen.filterMap id)
  if planned.rejected.isEmpty then
    let current ← w.row
    let stored := (current.results.getD {}).plan_queries planned.ledger
    pure ({ stored with
        follow_up_decisions := stored.follow_up_decisions ++
          decisions.map (decisionRecord planned.duplicates completed_ids) },
      if planned.ledger.isEmpty then "no_follow_up_query" else "follow_up_planned")
  else
    w.persist_policy_rejections planned.rejected .running
    raise (.adapter_error .query_policy_rejected
      ("SPL follow-up query rejected by deterministic policy: " ++ reasonText planned.rejected)
      "splunk.validate_query")

/-- What a round has found out before it is stored. -/
structure Round where
  results : Results
  assessments : List Document
  follow_up_questions : List Question
  assessed : List Uuid
  status : String

/-- The model's part of a round. -/
def investigate (policy : SPLPolicy) (plan : HuntPlan) (deadline : Instant) (current : HuntRow)
    (results : Results) (pending : List Uuid) : Op Round := do
  Proc.modify (·.record_cycle)
  let counters ← Proc.get
  let runner := w.roundRunner counters deadline
  let ((assessments, follow_ups), results, evidence_results) ←
    w.assess runner plan current results pending
  let counters ← Proc.get
  let questions := (pending_investigation_questions plan results follow_ups).take
    (w.limits.max_splunk_queries - counters.splunk_queries)
  let results := { results with
    latest_assessment_round := some ("; ".intercalate assessments) }
  w.checkpoint none .running results
  let open_question_ids := plan.questions.map (·.question_id)
  let (results, status) ← (if questions.isEmpty then pure (results, "assessed")
    else do
      let decisions ← w.decide_ runner policy open_question_ids current results evidence_results questions
      w.planRound policy (open_question_ids ++ questions.map (·.question_id)) results decisions)
  pure ⟨results, assessments, follow_ups, results.assessed_query_ids ++ pending, status⟩

/-- Store a round, and say whether the investigation goes on. -/
def storeRound (plan : HuntPlan) (round : Round) : Op Bool := do
  let counters ← Proc.get
  let results := { round.results with
    query_assessments := round.results.query_assessments ++ round.assessments
    follow_up_questions := round.results.follow_up_questions ++ round.follow_up_questions
    assessed_query_ids := round.assessed.eraseDups.mergeSort
    usage := some counters }
  let pending := (pending_investigation_questions plan results []).map (·.question_id)
  let status := if round.status = "no_follow_up_query" && !pending.isEmpty then "questions_pending"
    else round.status
  let goes_on := status = "follow_up_planned" || status = "questions_pending"
  w.checkpoint none .running { results with
    pending_question_ids := pending, adaptive_complete := !goes_on, adaptive_status := some status }
  pure goes_on

/-- The part of a round after the source checks. -/
def adaptiveRound (policy : SPLPolicy) (plan : HuntPlan) (deadline : Instant) (current : HuntRow)
    (results : Results) : Op Bool := do
  let counters ← Proc.get
  let pending := ((results.queries.map (·.query_id)).filter (· ∉ results.assessed_query_ids)).eraseDups
  let outstanding := pending_investigation_questions plan results []
  if (pending ≠ [] ∨ outstanding ≠ []) ∧ counters.agent_cycles < w.limits.max_agent_cycles ∧
      counters.model_calls + (if pending.isEmpty then 1 else 2) < w.limits.max_model_calls ∧
      counters.splunk_queries < w.limits.max_splunk_queries then
    let round ← w.investigate policy plan deadline current results pending
    w.storeRound plan round
  else
    w.storeRound plan ⟨results, [], [], results.assessed_query_ids,
      if pending.isEmpty && outstanding.isEmpty then "no_unassessed_queries"
      else "budget_reserved_for_synthesis"⟩

/-- `_assess_execution_round`: assess new results and plan bounded follow-ups. -/
def assess_execution_round (policy : SPLPolicy) (plan : HuntPlan) (deadline : Instant) : Op Bool := do
  w.require_lease
  let current ← w.row
  let results := current.results.getD {}
  if results.adaptive_complete then pure false
  else
    let checks ← w.planSourceChecks policy results
    if checks.isEmpty then w.adaptiveRound policy plan deadline current results
    else
      let counters ← Proc.get
      w.require_lease
      w.checkpoint none .running { results.plan_queries checks with
        usage := some counters, adaptive_status := some "source_coverage_planned"
        adaptive_complete := false }
      pure true

/-- Store that the investigation stopped. -/
def stopInvestigation (status : String) : Op Unit := do
  w.require_lease
  let current ← w.row
  let counters ← Proc.get
  w.checkpoint none .running { current.results.getD {} with
    adaptive_complete := true, adaptive_status := some status, usage := some counters }

/-- A round, whose budget or deadline may run out. -/
def assessRound (policy : SPLPolicy) (plan : HuntPlan) (d : Deadlines) : Op Bool := do
  let now ← now
  if now < d.query_start_deadline then
    (w.assess_execution_round policy plan d.query_start_deadline).handle fun e =>
      match e with
      | .adapter_error .budget_exhausted _ _ => do
          w.stopInvestigation "budget_reserved_for_synthesis"
          pure false
      | .adapter_error .hard_timeout _ _ => do
          let now ← Op.now
          if now < d.query_start_deadline then raise e else pure false
      | _ => raise e
  else pure false

/-! ### Synthesis -/

/-- How one synthesis step ended. -/
inductive Synthesis
  | final_only
  | limited (findings : List Document) (answers : List QuestionAnswer)
  | answered (pages : List Document) (findings : List Document) (answers : List QuestionAnswer)

/-- The questions still without an answer. -/
def unanswered (plan : HuntPlan) (results : Results) : List PlanQuestion :=
  plan.questions.filter fun q => q.question_id ∉ results.question_answers.map (·.question_id)

/-- May this step ask for more retained rows? -/
def allowRetrieval (results : Results) (counters : BudgetCounters) (remaining : Int) : Bool :=
  3 + counters.model_calls ≤ w.limits.max_model_calls &&
    seconds w.limits.synthesis_allowance_seconds < remaining &&
    4096 + counters.model_input_tokens < w.limits.max_model_input_tokens &&
    1024 + counters.model_output_tokens < w.limits.max_model_output_tokens &&
    results.synthesis_retrieval_status ≠ some "no_new_pages" &&
    results.synthesis_retrieval_status ≠ some "final_only"

/-- The runner of a final answer. -/
def finalRunner (d : Deadlines) : StrictModelRunner where
  limits := w.limits
  deadline := some d.deadline
  is_cancelled := w.is_cancelled

/-- The runner of a step that may ask for more rows: it leaves a call, half of the tokens and
the synthesis time for a final answer. -/
def retrievalRunner (d : Deadlines) (counters : BudgetCounters) : StrictModelRunner :=
  w.roundRunner counters (d.deadline - seconds w.limits.synthesis_allowance_seconds)

/-- Try the complete request first: an answer, `none` if nothing was sent because it does not
fit, or the failure of a call that was made. -/
def tryComplete (d : Deadlines) (focused : HuntPlan) : Op (Except Fault (Option Document)) := do
  let before ← Proc.get
  let run : Op (Except Fault (Option Document)) := do
    let answer : Document ← (w.finalRunner d).run
      (.question_synthesis (focused.questions.map (·.question_id)) false)
    pure (.ok (some answer))
  run.handle fun e =>
    match e with
    | .adapter_error category _ _ => do
        let after ← Proc.get
        if category = .budget_exhausted ∧ after.model_calls = before.model_calls then pure (.ok none)
        else pure (.error e)
    | _ => raise e

/-- What an adapter failure means for a synthesis step. -/
def synthesisFailed (focused : HuntPlan) (row : HuntRow) (results : Results) (allow : Bool) (e : Fault) :
    Op Synthesis :=
  match e with
  | .adapter_error category _ _ =>
      if allow = true ∧ (category = .budget_exhausted ∨ category = .hard_timeout) then pure .final_only
      else if category ≠ .budget_exhausted then raise e
      else do
        let (findings, answers) ← ofExcept (w.investigation.materialize_question_answers
          (w.investigation.limited_answer focused) focused results row.threat_intelligence)
        pure (.limited findings answers)
  | _ => raise e

/-- One synthesis step. -/
def synthesisStep (d : Deadlines) (plan : HuntPlan) (row : HuntRow) (results : Results) : Op Synthesis := do
  let focused := { plan with questions := unanswered plan results }
  let now ← now
  let counters ← Proc.get
  let allow := w.allowRetrieval results counters (d.deadline - now)
  let complete := allow && !w.investigation.synthesis_sample_omitted focused row.threat_intelligence
    results w.limits.max_targeted_events
  let first ← (if complete = true then w.tryComplete d focused else pure (.ok none))
  match first with
  | .error e => w.synthesisFailed focused row results false e
  | .ok first =>
      let answer : Op Synthesis := do
        let text : Document ← (match first with
          | some text => pure text
          | none => (if allow then w.retrievalRunner d counters else w.finalRunner d).run
              (.question_synthesis (focused.questions.map (·.question_id)) allow))
        let pages ← ofExcept (w.investigation.retained_synthesis_pages text focused results)
        let (findings, answers) ← ofExcept (w.investigation.materialize_question_answers text focused
          results row.threat_intelligence)
        pure (.answered pages findings answers)
      answer.handle (w.synthesisFailed focused row results allow)

/-- The retrieved pages with those of one answer; a repeated page moves to the current round. -/
def addPages (round : Nat) (pages : List Document) (previous : List RetrievedPage) : List RetrievedPage :=
  pages.foldl (fun stored page =>
    if stored.any (·.page = page) then
      stored.map fun p => if p.page = page then { p with retrieval_round := round } else p
    else stored ++ [⟨page, round⟩]) previous

/-- The results after a synthesis step. -/
def afterStep (counters : BudgetCounters) (step : Synthesis) (results : Results) : Results :=
  match step with
  | .final_only =>
      { results with synthesis_retrieval_status := some "final_only", usage := some counters }
  | .limited findings answers =>
      { results with
        findings := results.findings ++ findings
        question_answers := results.question_answers ++ answers
        synthesis_retrieval_status := some "budget_limited", usage := some counters }
  | .answered pages findings answers =>
      { results with
        findings := results.findings ++ findings
        question_answers := results.question_answers ++ answers
        synthesis_retrievals := addPages counters.model_calls pages results.synthesis_retrievals
        synthesis_retrieval_status :=
          if !pages.isEmpty && pages.all fun page => results.synthesis_retrievals.any (·.page = page) then
            some "no_new_pages"
          else results.synthesis_retrieval_status
        usage := some counters }

/-- The synthesis loop: one step and one checkpoint per turn, until every question has an
answer. -/
def synthesize (d : Deadlines) (plan : HuntPlan) (row : HuntRow) : Nat → Results → Op Results
  | 0, _ => Proc.halt
  | fuel + 1, results =>
      if (unanswered plan results).isEmpty then pure results
      else do
        let step ← w.synthesisStep d plan row results
        let counters ← Proc.get
        let results := afterStep counters step results
        w.require_lease
        w.checkpoint none .running results
        synthesize d plan row fuel results

/-! ### The attempt -/

/-- The draft report of a synthesized hunt. -/
def draftReport (row : HuntRow) (plan : HuntPlan) (results : Results) : Op Unit := do
  w.require_lease
  let report_id ← uuid4
  let updated ← now
  w.update none { state := some .synthesizing }
    { state := some .report_draft, report_id := some report_id, report_version := some 1
      report_state := some .report_draft
      report_content := some (w.investigation.execution_report_content row plan results)
      updated_at_utc := updated }

/-- Synthesis, and the two transitions to the draft report. -/
def conclude (d : Deadlines) (row : HuntRow) (plan : HuntPlan) (fuel : Nat) : Op Unit := do
  w.raiseIfCancelled "execution.complete"
  w.require_lease
  let current ← w.row
  let results ← w.synthesize d plan row fuel (current.results.getD {})
  let counters ← Proc.get
  let position := fun (a : QuestionAnswer) => plan.questions.findIdx (·.question_id = a.question_id)
  let results := { results with
    question_answers := results.question_answers.mergeSort fun a b => position a ≤ position b
    usage := some counters }
  let updated ← now
  w.update none { state := some .running }
    { state := some .synthesizing, results := some results, updated_at_utc := updated }
  w.draftReport row plan results

/-- The first checkpoint of a queued hunt: its planned queries. -/
def startRunning (policy : SPLPolicy) (plan : HuntPlan) : Op Instant := do
  let ledger ← w.draft_execution_ledger policy (plan.questions.map (·.question_id))
  let started ← now
  let counters ← Proc.get
  let current ← w.row
  let progress : Results := {
    query_ledger := some ledger, usage := some counters, execution_started_at_utc := some started
    query_policy_rejections := current.results.bind (·.query_policy_rejections) }
  w.require_lease
  w.update none { state := some .queued }
    { state := some .running, results := some progress, updated_at_utc := started }
  pure started

/-- The start time and counters of a running hunt, from its checkpoint. -/
def resumeRunning (row : HuntRow) : Op Instant := do
  let progress := row.results.getD {}
  raiseIf (progress.query_ledger.isNone ∨ progress.execution_started_at_utc.isNone)
    (.conflict "running execution is missing a recoverable query checkpoint")
  Proc.modify fun _ => progress.counters
  ofOption progress.execution_started_at_utc
    (.conflict "running execution start time is malformed")

/-- What an attempt works on once its bindings are checked. -/
structure Bound where
  row : HuntRow
  plan : HuntPlan
  header : PlanHeader
  payload : DiscoveryPayload

/-- The checks of the approval's bindings to the stored plan and configuration. -/
def checkBindings (row : HuntRow) : Except Fault Bound := do
  let plan ← (match row.plan with
    | some plan => .ok plan
    | none => .error (.conflict "approved plan binding is invalid"))
  match row.approval with
  | some approval =>
      if approval.plan_sha256 ≠ w.helpers.plan_sha256 plan ∨ approval.plan_version ≠ row.plan_version then
        .error (.conflict "approved plan binding is invalid")
      else
        match row.discovery_snapshot with
        | some snapshot =>
            match snapshot.execution_config_snapshot with
            | some config =>
                if approval.execution_config_snapshot_id ≠ some config.snapshot_id ∨
                    approval.execution_config_sha256 ≠ some config.sha256 then
                  .error (.conflict "approved execution configuration binding is invalid")
                else do
                  w.service.validate_execution_snapshot w.helpers config
                  let plan ← validate_plan plan
                  let header ← plan.model_validate
                  if header.execution_config_snapshot_id ≠ config.snapshot_id then
                    .error (.conflict "plan execution configuration binding is invalid")
                  else .ok ⟨row, plan, header, snapshot.payload⟩
            | none => .error (.conflict "execution configuration snapshot is missing")
        | none => .error (.conflict "execution configuration snapshot is missing")
  | none => .error (.conflict "approved plan binding is invalid")

/-- Run `p` with counters of its own. -/
def separately (p : Op Unit) : Op Unit := do
  let saved ← Proc.get
  p.handle fun e => do
    Proc.modify fun _ => saved
    raise e
  Proc.modify fun _ => saved

/-- The investigation of a hunt: its queries, one assessment round, and either another pass
over the checkpoint (`again`) or the conclusion. -/
def runInvestigation (again : Op Unit) (fuel : Nat) (bound : Bound) : Op Unit := do
  let policy := w.policy bound.plan bound.header bound.payload
  let progress := bound.row.results.getD {}
  let started ← (if bound.row.state = .queued then w.startRunning policy bound.plan
    else resumeRunning bound.row)
  let d := w.deadlines started
  let follow_ups := if bound.row.state = .queued then [] else progress.follow_up_questions
  let open_question_ids := bound.plan.questions.map (·.question_id) ++ follow_ups.map (·.question_id)
  let executor := w.executor policy open_question_ids d
  w.run_checkpoint_queries executor d fuel
  let goes_on ← w.assessRound policy bound.plan d
  if goes_on = true then separately again
  else
    let now ← now
    if d.query_start_deadline ≤ now then w.stopInvestigation "time_reserved_for_synthesis" else pure ()
    w.conclude d bound.row bound.plan fuel

/-- The `except` clause of `execute_job`: the hunt fails, if the lease still allows it. -/
def executionFailed (e : Fault) : Op Unit := do
  let fail : Op Unit := do
    w.require_lease
    let current ← w.row
    if current.state = .queued ∨ current.state = .running ∨ current.state = .synthesizing then
      let counters ← Proc.get
      let updated ← now
      w.update none { state := some current.state }
        { state := some .failed
          results := some { current.results.getD {} with
            usage := some counters, failure := some ⟨e.category, e.error_type⟩ }
          updated_at_utc := updated }
    else pure ()
  fail.handle fun e' =>
    match e' with
    | .conflict _ | .job_conflict _ => pure ()
    | _ => raise e'
  raise e

/-- The checks of `execute_job` before it starts to work; `none` if there is nothing to do. -/
def admission : Op (Option Bound) := do
  raiseIf (w.service.local_demo = true)
    (.integration_unavailable "demo executions are handled synchronously")
  raiseIf (w.service.adapters_configured = false)
    (.integration_unavailable "production Splunk and model adapters are not configured")
  w.require_lease.handle fun e =>
    match e with
    | .job_conflict message => raise (.conflict message)
    | _ => raise e
  let row ← w.row
  if row.state = .cancelled ∨ row.state = .report_draft then pure none
  else
    raiseIf (row.state ≠ .queued ∧ row.state ≠ .running ∧ row.state ≠ .synthesizing)
      (.conflict "execution job is not recoverable")
    let bound ← ofExcept (w.checkBindings row)
    pure (some bound)

/-- `execute_job`. -/
def execute_job : Nat → Op Unit
  | 0 => Proc.halt
  | fuel + 1 => do
      let admitted ← w.admission
      match admitted with
      | none => pure ()
      | some bound => do
          Proc.modify fun _ => {}
          let work : Op Unit :=
            if bound.row.state = .synthesizing then
              w.draftReport bound.row bound.plan (bound.row.results.getD {})
            else w.runInvestigation (execute_job fuel) fuel bound
          work.handle w.executionFailed

end Worker

end WorkflowService

end ThreatHunting
