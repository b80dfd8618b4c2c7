import ThreatHunting.Services.Orchestration

/-!
# ThreatHunting.Services.Review

The analyst's operations on a hunt (`services/workflow.py`): creating and cancelling it,
discovery, plan editing and review, execution of an approved plan, and the report. Each
one reads the hunt's row and later makes one or more conditional updates.
-/

namespace ThreatHunting

open Store Op

namespace WorkflowService

variable (helpers : Helpers) (service : Service)

/-! ### Creation and cancellation -/

/-- `CONTEXT_INPUT_MAX_LENGTH`. -/
def contextInputMaxLength : Nat := 50000

/-- `create_hunt`. -/
def create_hunt (owner_id title hypothesis objective threat_intelligence synthetic_data : String) :
    Op Unit := do
  raiseIf (contextInputMaxLength < threat_intelligence.length)
    (.validation "threat intelligence exceeds the 50000 character limit")
  raiseIf (contextInputMaxLength < synthetic_data.length)
    (.validation "synthetic data exceeds the 50000 character limit")
  let now ← now
  let hunt_id ← uuid4
  let row : HuntRow := {
    hunt_id, owner_id, title, hypothesis, objective, threat_intelligence, synthetic_data
    state := .created, created_at_utc := now, updated_at_utc := now }
  let (_, inserted) ← Proc.commit (S := signature) (.insert_hunt row)
  raiseIf (inserted = false) .integrity_error

/-- `cancel`. -/
def cancel (owner_id hunt_id : String) : Op Unit := do
  let row ← owned_row owner_id hunt_id
  if row.state = .cancelled then pure ()
  else
    raiseIf (row.state = .finalized ∨ row.state = .failed)
      (.conflict "terminal hunts cannot be cancelled")
    let updated ← now
    update .cancel owner_id hunt_id { state := some row.state }
      { state := some .cancelled, updated_at_utc := updated }
    if service.local_demo then pure ()
    else
      let now ← now
      let _ ← Proc.commit (S := signature)
        (.call_jobs service.jobs (.request_cancel owner_id hunt_id now))

/-! ### Discovery -/

/-- The snapshot and plan `_discover_demo` stores. -/
def demoSnapshot (snapshot_id : Uuid) : DiscoverySnapshot where
  snapshot_id
  payload := {
    discovery := {
      indexes := ["main", "security"], sourcetypes := ["WinEventLog:Security", "sysmon"]
      fields := ["_time", "host", "user", "src_ip", "EventCode"], representative_schemas := []
      coverage_limitations := ["Local demo metadata; not production Splunk discovery."] }
    schema_requested_scope := none
    source_pairs := [] }
  execution_config_snapshot := none
  intelligence_sources := []
  mode := .deterministic_local_demo

/-- The plan of the local demo, over the last 24 hours. -/
def demoPlan (row : HuntRow) (snapshot : DiscoverySnapshot) (now : Instant) : HuntPlan where
  header := none
  hypothesis := row.hypothesis
  objective := row.objective
  scope := {
    earliest_utc := now - seconds 86400, latest_utc := now
    indexes := snapshot.payload.discovery.indexes
    sourcetypes := snapshot.payload.discovery.sourcetypes }
  questions := [{
    question_id := "q1"
    question := "Which scoped authentication activity supports or refutes the hypothesis?"
    rationale := "Start with observable authentication telemetry."
    expected_information_gain := "Identify unusual host, user, and source-IP combinations." }]
  query_strategy := ["Use bounded aggregate searches before representative events."]
  coverage_limitations := snapshot.payload.discovery.coverage_limitations

/-- `_discover_demo`. -/
def discover_demo (owner_id hunt_id : String) : Op Unit := do
  let row ← owned_row owner_id hunt_id
  raiseIf (row.state ≠ .created) (.conflict "discovery requires a newly created hunt")
  let now ← now
  let snapshot := demoSnapshot (← uuid4)
  update .discover owner_id hunt_id { state := some .created }
    { state := some .discovering, updated_at_utc := now }
  update .discover owner_id hunt_id { state := some .discovering }
    { state := some .plan_draft, discovery_snapshot := some snapshot
      plan := some (demoPlan row snapshot now), plan_version := some 1, updated_at_utc := now }
  update .discover owner_id hunt_id { state := some .plan_draft }
    { state := some .awaiting_plan_review, updated_at_utc := now }

/-- `ProductionOrchestrator.discover`: the discovery and its snapshot, sampled in the scope of
a plan if one is given. -/
def orchestrator_discover (plan : Option (HuntPlan × PlanHeader)) :
    Op (SplunkDiscovery × DiscoverySnapshot) := do
  let discovery ← ofExcept (← Proc.ask (S := signature) (.discover (plan.map (·.1))))
  let snapshot_id ← uuid4
  let payload : DiscoveryPayload := {
    discovery
    schema_requested_scope := plan.map (·.1.scope)
    source_pairs := (plan.map (·.2.pairs.eraseDups)).getD [] }
  pure (discovery, {
    snapshot_id, payload, execution_config_snapshot := none, intelligence_sources := []
    mode := .production })

/-- The identities the application assigns to a plan under discovery. -/
structure AssignedIds where
  plan_id : Uuid
  hunt_id : Uuid
  snapshot_id : Uuid
  config_id : Uuid

/-- The checks `discover` makes of each drafted plan. -/
def checkDraft (ids : AssignedIds) (discovery : SplunkDiscovery)
    (required : Option (HuntScope × List (String × String))) (plan : HuntPlan) (header : PlanHeader) :
    Except Fault Unit :=
  if header.plan_id ≠ ids.plan_id ∨ header.hunt_id ≠ ids.hunt_id ∨
      header.discovery_snapshot_id ≠ ids.snapshot_id ∨
      header.execution_config_snapshot_id ≠ ids.config_id then
    .error (.validation "model plan identifiers do not match application-assigned snapshots")
  else if header.plan_version ≠ 1 then
    .error (.validation "production discovery requires plan_version 1")
  else if !(plan.scope.indexes.all (· ∈ discovery.indexes)) ||
      !(plan.scope.sourcetypes.all (· ∈ discovery.sourcetypes)) ||
      header.pairs.any (fun pair => pair.1 ∉ plan.scope.indexes || pair.2 ∉ plan.scope.sourcetypes) then
    .error (.validation "proposed plan sources are outside discovery or plan scope")
  else
    match required with
    | some (scope, pairs) =>
        if plan.scope.earliest_utc ≠ scope.earliest_utc ∨ plan.scope.latest_utc ≠ scope.latest_utc ∨
            sameSet plan.scope.indexes scope.indexes = false ∨
            sameSet plan.scope.sourcetypes scope.sourcetypes = false ∨
            sameSet header.pairs pairs = false then
          .error (.validation "grounded plan changed the sampled scope or source pairs")
        else .ok ()
    | none => .ok ()

/-- The runner of the planning calls. -/
def planRunner : StrictModelRunner where
  limits := service.budget_limits.toBudgetValues
  deadline := none
  is_cancelled := pure false

/-- One drafted plan, with the header a valid plan has. -/
def draft_plan (sources : List String) : Op (HuntPlan × PlanHeader) := do
  let plan : HuntPlan ← (planRunner service).run (.hunt_plan sources)
  let header ← ofExcept plan.model_validate
  pure (plan, header)

/-- What the drafting loop leaves: the plan, its header, the discovery and its snapshot. -/
structure Drafted where
  plan : HuntPlan
  header : PlanHeader
  discovery : SplunkDiscovery
  snapshot : DiscoverySnapshot

/-- The drafting loop of `discover`: a plan, and a second one where sampling the scope of the
first has changed the known fields. -/
def draftRounds (ids : AssignedIds) (sources : List String) (discovery : SplunkDiscovery) : Op Drafted := do
  let (plan, header) ← draft_plan service sources
  ofExcept (checkDraft ids discovery none plan header)
  let (scoped_discovery, scoped_snapshot) ← orchestrator_discover (some (plan, header))
  if sameSet scoped_discovery.fields discovery.fields &&
      scoped_discovery.representative_schemas = discovery.representative_schemas then
    let header := { header with discovery_snapshot_id := scoped_snapshot.snapshot_id }
    pure ⟨{ plan with header := some header }, header, scoped_discovery, scoped_snapshot⟩
  else
    let (plan', header') ← draft_plan service sources
    ofExcept (checkDraft { ids with snapshot_id := scoped_snapshot.snapshot_id } scoped_discovery
      (some (plan.scope, header.pairs)) plan' header')
    pure ⟨plan', header', scoped_discovery, scoped_snapshot⟩

/-- The plan and snapshot `discover` stores, from what the drafting loop leaves. -/
def finishDraft (drafted : Drafted) (config : ConfigSnapshot) (sources : List String) :
    HuntPlan × DiscoverySnapshot :=
  ({ drafted.plan with
      coverage_limitations :=
        (drafted.plan.coverage_limitations ++ drafted.discovery.coverage_limitations).eraseDups
      questions := drafted.plan.questions.zipIdx.map fun (question, position) =>
        { question with question_id := "q" ++ toString (position + 1) } },
    { drafted.snapshot with
      execution_config_snapshot := some config, intelligence_sources := sources, mode := .production })

/-- The body of `discover` after the hunt is DISCOVERING. -/
def draft (owner_id hunt_id : String) (row : HuntRow) (started : Instant) : Op Unit := do
  let (discovery, snapshot) ← orchestrator_discover none
  let config_id ← uuid4
  let _ ← now
  let config : ConfigSnapshot := {
    snapshot_id := config_id, payload := service.binding, sha256 := helpers.binding_sha256 service.binding }
  let plan_id ← uuid4
  let sources := helpers.intelligence_sources row.hunt_id row.threat_intelligence
  let drafted ← draftRounds service ⟨plan_id, row.hunt_id, snapshot.snapshot_id, config_id⟩ sources discovery
  let (plan, snapshot) := finishDraft drafted config sources
  let plan ← ofExcept (validate_plan plan)
  update .discover owner_id hunt_id { state := some .discovering }
    { state := some .plan_draft, discovery_snapshot := some snapshot, plan := some plan
      plan_version := some 1, updated_at_utc := started }
  let updated ← now
  update .discover owner_id hunt_id { state := some .plan_draft }
    { state := some .awaiting_plan_review, updated_at_utc := updated }

/-- Does `discover` turn the exception into a failed hunt? -/
def failsDiscovery : Fault → Bool
  | .adapter_error _ _ _ | .model_contract_error _ _ | .value_error _ | .validation _ => true
  | _ => false

/-- The `except` clause of `discover`. -/
def discoveryFailed (owner_id hunt_id : String) (e : Fault) : Op Unit := do
  if failsDiscovery e then
    let updated ← now
    (update .discover owner_id hunt_id { state := some .discovering }
      { state := some .failed, updated_at_utc := updated }).handle fun e' =>
        match e' with
        | .conflict _ => pure ()
        | _ => raise e'
    match e with
    | .adapter_error .budget_exhausted message _ =>
        raise (.integration_unavailable ("production discovery failed: " ++ message))
    | _ => raise (.integration_unavailable "production discovery failed")
  else raise e

/-- `discover`. -/
def discover (owner_id hunt_id : String) : Op Unit := do
  if service.local_demo then discover_demo owner_id hunt_id
  else
    raiseIf (service.adapters_configured = false)
      (.integration_unavailable "production Splunk and model adapters are not configured")
    let row ← owned_row owner_id hunt_id
    raiseIf (row.state ≠ .created) (.conflict "discovery requires a newly created hunt")
    let started ← now
    update .discover owner_id hunt_id { state := some .created }
      { state := some .discovering, updated_at_utc := started }
    (draft helpers service owner_id hunt_id row started).handle (discoveryFailed owner_id hunt_id)

/-! ### Plan review -/

/-- The states in which a plan may be edited. -/
def editable (state : HuntState) : Bool := state = .awaiting_plan_review || state = .plan_draft

/-- A plan edit refreshed its scope: the plan's new header and the snapshot to store. -/
structure Edited where
  plan : HuntPlan
  snapshot : Option DiscoverySnapshot

/-- The production checks of `save_plan`, and the scoped discovery of a changed scope. -/
def editProduction (row : HuntRow) (expected_version : Nat) (plan : HuntPlan) : Op Edited := do
  let stored ← ofOption row.plan (.value_error "HuntPlan")
  let previous ← ofExcept stored.model_validate
  let contract := Fault.validation
    "edited plan does not satisfy the production plan contract or supplied intelligence reference boundary"
  let revised ← (ofExcept plan.model_validate).handle fun _ => raise contract
  let sources := (row.discovery_snapshot.map (·.intelligence_sources)).getD []
  raiseIf (validate_intelligence_refs revised.intelligence_refs sources = false) contract
  raiseIf (revised.hunt_id ≠ previous.hunt_id ∨ revised.plan_id ≠ previous.plan_id ∨
      revised.discovery_snapshot_id ≠ previous.discovery_snapshot_id ∨
      revised.execution_config_snapshot_id ≠ previous.execution_config_snapshot_id)
    (.validation "plan editing cannot replace application-assigned identities")
  raiseIf (revised.pairs.any fun pair => pair.1 ∉ plan.scope.indexes || pair.2 ∉ plan.scope.sourcetypes)
    (.validation "edited plan data sources are outside its scope")
  if plan.scope ≠ stored.scope ∨ sameSet revised.pairs previous.pairs = false then
    raiseIf (service.adapters_configured = false)
      (.integration_unavailable "scoped discovery is not configured")
    let original ← ofOption row.discovery_snapshot (.value_error "discovery_snapshot")
    let catalog := original.payload.discovery
    raiseIf ((plan.scope.indexes.all (· ∈ catalog.indexes) &&
        plan.scope.sourcetypes.all (· ∈ catalog.sourcetypes)) = false)
      (.validation "edited plan sources are outside the discovered catalog")
    let (discovery, snapshot) ← (orchestrator_discover (some (plan, revised))).handle fun e =>
      match e with
      | .adapter_error _ _ _ =>
          raise (.integration_unavailable "scoped discovery failed; the previous plan is unchanged")
      | _ => raise e
    pure {
      plan := { plan with
        header := some { revised with
          discovery_snapshot_id := snapshot.snapshot_id, plan_version := expected_version + 1 }
        coverage_limitations := (plan.coverage_limitations ++ discovery.coverage_limitations).eraseDups }
      snapshot := some { snapshot with
        execution_config_snapshot := original.execution_config_snapshot
        intelligence_sources := original.intelligence_sources, mode := original.mode } }
  else
    pure {
      plan := { plan with header := some { revised with plan_version := expected_version + 1 } }
      snapshot := none }

/-- `save_plan`. -/
def save_plan (owner_id hunt_id : String) (expected_version : Nat) (plan : HuntPlan) : Op Unit := do
  let row ← owned_row owner_id hunt_id
  raiseIf (editable row.state = false) (.conflict "plan editing is not allowed in the current state")
  raiseIf (row.plan_version ≠ some expected_version) (.conflict "plan version is stale")
  let normalized ← ofExcept (validate_plan plan)
  let edited : Edited ← (if service.local_demo then pure ⟨normalized, none⟩
    else editProduction service row expected_version normalized)
  let updated ← now
  update .save_plan owner_id hunt_id { plan_version := some expected_version }
    { state := some .awaiting_plan_review, plan := some edited.plan
      plan_version := some (expected_version + 1), approval := some none
      discovery_snapshot := edited.snapshot, updated_at_utc := updated }

/-- The stored plan with one more coverage limitation. -/
def annotate (plan : HuntPlan) (note : String) : HuntPlan :=
  { plan with coverage_limitations := plan.coverage_limitations ++ [note] }

/-- `revise_plan`. -/
def revise_plan (owner_id hunt_id instruction : String) : Op Unit := do
  let row ← owned_row owner_id hunt_id
  raiseIf (editable row.state = false) (.conflict "plan revision is not allowed in the current state")
  let plan ← ofOption row.plan (.value_error "plan")
  let version ← ofOption row.plan_version (.value_error "plan_version")
  let updated ← now
  update .revise_plan owner_id hunt_id { plan_version := some version }
    { state := some .awaiting_plan_review
      plan := some (annotate plan ("Analyst revision request: " ++ instruction))
      plan_version := some (version + 1), approval := some none, updated_at_utc := updated }

/-- Does the plan still have the scope its snapshot was sampled in? -/
def scopeRefreshed (plan : HuntPlan) (snapshot : Option DiscoverySnapshot) : Except Fault Unit :=
  match snapshot with
  | some s =>
      match s.payload.schema_requested_scope with
      | some scope =>
          match plan.model_validate with
          | .error e => .error e
          | .ok header =>
              if plan.scope ≠ scope ∨ sameSet header.pairs s.payload.source_pairs = false then
                .error (.conflict
                  "plan scope does not match its discovery snapshot; save the plan to refresh discovery")
              else .ok ()
      | none => .ok ()
  | none => .ok ()

/-- `approve`. -/
def approve (owner_id hunt_id : String) (note : Option String) : Op Unit := do
  let row ← owned_row owner_id hunt_id
  raiseIf (row.state ≠ .awaiting_plan_review) (.conflict "only a plan awaiting review can be approved")
  let plan ← ofOption row.plan (.value_error "plan")
  let _ ← ofExcept (validate_plan plan)
  let sources := (row.discovery_snapshot.map (·.intelligence_sources)).getD []
  let refs := (plan.header.map (·.intelligence_refs)).getD []
  raiseIf (service.local_demo = false ∧ validate_intelligence_refs refs sources = false)
    (.conflict "plan intelligence reference is not bound to a supplied source; edit the plan before approval")
  if service.local_demo then pure () else ofExcept (scopeRefreshed plan row.discovery_snapshot)
  let approval_id ← uuid4
  let approved_at ← now
  let config := row.discovery_snapshot.bind (·.execution_config_snapshot)
  let approval : Approval := {
    approval_id, plan_version := row.plan_version, plan_sha256 := helpers.plan_sha256 plan
    approved_by_user_id := owner_id, approved_at_utc := approved_at
    analyst_note := match note with
      | some text => if text = "" then "unknown" else text
      | none => "unknown"
    execution_config_snapshot_id := config.map (·.snapshot_id)
    execution_config_sha256 := config.map (·.sha256) }
  let version ← ofOption row.plan_version (.value_error "plan_version")
  let updated ← now
  update .approve owner_id hunt_id
    { state := some .awaiting_plan_review, plan_version := some version }
    { state := some .approved, approval := some (some approval), updated_at_utc := updated }

/-- `reject`. -/
def reject (owner_id hunt_id note : String) : Op Unit := do
  let row ← owned_row owner_id hunt_id
  raiseIf (row.state ≠ .awaiting_plan_review) (.conflict "only a plan awaiting review can be rejected")
  let plan ← ofOption row.plan (.value_error "plan")
  let version ← ofOption row.plan_version (.value_error "plan_version")
  let updated ← now
  update .reject owner_id hunt_id
    { state := some .awaiting_plan_review, plan_version := some version }
    { state := some .plan_draft, plan := some (annotate plan ("Rejected for revision: " ++ note))
      approval := some none, updated_at_utc := updated }

/-! ### Execution of an approved plan -/

/-- The approval of the current plan version, or the reason `execute` refuses. -/
def approvalOf (row : HuntRow) : Except Fault Approval :=
  match row.approval with
  | some approval =>
      if row.state ≠ .approved then
        .error (.conflict "execution requires approval of the current plan version")
      else if approval.plan_version ≠ row.plan_version then
        .error (.conflict "approved plan version no longer matches the current plan")
      else .ok approval
  | none => .error (.conflict "execution requires approval of the current plan version")

/-- The configuration snapshot an approval is bound to. -/
def boundConfig (row : HuntRow) (approval : Approval) : Except Fault ConfigSnapshot :=
  match row.discovery_snapshot.bind (·.execution_config_snapshot) with
  | some config =>
      if approval.execution_config_snapshot_id = some config.snapshot_id ∧
          approval.execution_config_sha256 = some config.sha256 then .ok config
      else .error (.conflict "approved execution configuration binding is invalid")
  | none => .error (.conflict "approved execution configuration binding is invalid")

/-- The production part of `execute`: the hunt is queued and its job enqueued in one
transaction. -/
def execute_production (owner_id hunt_id : String) (row : HuntRow) (plan : HuntPlan)
    (approval : Approval) : Op Unit := do
  let sources := (row.discovery_snapshot.map (·.intelligence_sources)).getD []
  let refs := (plan.header.map (·.intelligence_refs)).getD []
  raiseIf (validate_intelligence_refs refs sources = false)
    (.conflict "plan intelligence reference is not bound to a supplied source")
  let config ← ofExcept (boundConfig row approval)
  ofExcept (service.validate_execution_snapshot helpers config)
  let updated ← now
  let version ← ofOption row.plan_version (.value_error "plan_version")
  let job_id ← uuid4
  let enqueued ← now
  let expect : Expect := { state := some .approved, plan_version := some version }
  let values : Values := { state := some .queued, updated_at_utc := updated }
  let (seen, accepted) ← Proc.commit (S := signature) (.update_and_enqueue owner_id hunt_id expect values {
    svc := service.jobs, job_id, idempotency_key := "hunt:" ++ hunt_id ++ ":execution"
    payload := {
      hunt_id, plan_version := row.plan_version, plan_sha256 := approval.plan_sha256
      execution_config_snapshot_id := approval.execution_config_snapshot_id
      execution_config_sha256 := approval.execution_config_sha256 }
    now := enqueued })
  if accepted then pure ()
  else if (seen.updateHunt owner_id hunt_id expect values).isNone then
    raise (.conflict "hunt changed before the operation completed")
  else raise .integrity_error

/-- The local demo's part of `execute`: every state up to the draft report, at once. -/
def execute_demo (owner_id hunt_id : String) (row : HuntRow) : Op Unit := do
  let now ← now
  let ids ← Proc.collect (fun _ => uuid4) [(), (), (), (), ()]
  let results := helpers.demo_results now ids
  update .execute owner_id hunt_id { state := some .approved }
    { state := some .queued, updated_at_utc := now }
  update .execute owner_id hunt_id { state := some .queued }
    { state := some .running, updated_at_utc := now }
  update .execute owner_id hunt_id { state := some .running }
    { state := some .synthesizing, results := some results, updated_at_utc := now }
  let report_id ← uuid4
  update .execute owner_id hunt_id { state := some .synthesizing }
    { state := some .report_draft, report_id := some report_id, report_version := some 1
      report_state := some .report_draft
      report_content := some (helpers.demo_report_content row results), updated_at_utc := now }

/-- `execute`. -/
def execute (owner_id hunt_id : String) : Op Unit := do
  let row ← owned_row owner_id hunt_id
  let approval ← ofExcept (approvalOf row)
  let plan ← ofOption row.plan (.value_error "plan")
  let _ ← ofExcept (validate_plan plan)
  if service.local_demo then execute_demo helpers owner_id hunt_id row
  else execute_production helpers service owner_id hunt_id row plan approval

/-! ### The report -/

/-- `save_report`. -/
def save_report (owner_id hunt_id : String) (expected_version : Nat) (content : ReportContent) :
    Op Unit := do
  let row ← owned_row owner_id hunt_id
  raiseIf (row.report_state ≠ some .report_draft) (.conflict "finalized reports cannot be edited")
  raiseIf (row.report_version ≠ some expected_version) (.conflict "report version is stale")
  raiseIf ((row.report_content.bind (·.observed_activity)).isSome ∧ content.observed_activity.isNone)
    (.validation "report observed activity cannot be removed")
  let normalized ← ofExcept (helpers.validate_report_content content row.results)
  let updated ← now
  update .save_report owner_id hunt_id
    { state := some .report_draft, report_state := some .report_draft
      report_version := some expected_version }
    { report_content := some normalized, report_version := some (expected_version + 1)
      updated_at_utc := updated }

/-- `finalize_report`. -/
def finalize_report (owner_id hunt_id : String) (expected_version : Nat) : Op Unit := do
  let row ← owned_row owner_id hunt_id
  raiseIf (row.report_state ≠ some .report_draft ∨ row.report_version ≠ some expected_version)
    (.conflict "report is finalized or its version is stale")
  let stored ← ofOption row.report_content (.value_error "report_content")
  let content ← ofExcept (helpers.validate_report_content stored row.results)
  let updated ← now
  update .finalize_report owner_id hunt_id
    { state := some .report_draft, report_state := some .report_draft
      report_version := some expected_version }
    { state := some .finalized, report_state := some .finalized
      report_pdf := some (helpers.formatted_pdf row.title content), updated_at_utc := updated }

end WorkflowService

end ThreatHunting
