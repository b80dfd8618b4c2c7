import ThreatHunting.Mcp.Records
import ThreatHunting.Lib.Fallible

/-!
# ThreatHunting.Mcp.Authorization

`authorize_mcp_tool_request`: the rows a request names are loaded, and every assertion of the
request and every binding between the rows is checked before a context is returned. The
database may hold any rows in tables of any columns.
-/

namespace ThreatHunting

namespace Mcp

open Fallible

/-- `AuthorizationCode`. -/
inductive AuthorizationCode
  | invalid_request | unauthenticated_subject | schema_unavailable | execution_not_found | hunt_mismatch
  | owner_mismatch | deployment_scope_mismatch | approval_missing | approval_mismatch | plan_missing
  | plan_mismatch | config_missing | config_mismatch | discovery_missing | discovery_mismatch
  | query_missing | query_mismatch | question_mismatch | purpose_mismatch | information_gain_mismatch
  | policy_mismatch | hash_mismatch | scope_mismatch | limit_mismatch | lease_missing | lease_expired
  | lease_owner_mismatch | execution_cancelled | execution_terminal | authorization_expired
  | authorization_revoked | replay_conflict | audit_unavailable | database_failure
  | semantic_skill_required | semantic_capability_missing | semantic_capability_ambiguous
  deriving DecidableEq, Repr

/-- What authorization raises: `AuthorizationDenied`, or an exception of `int`. -/
inductive Failure
  | denied (code : AuthorizationCode) (detail : String)
  | raised (error_type : String)
  deriving DecidableEq, Repr

/-- Go on, or deny. -/
def require (ok : Bool) (code : AuthorizationCode) (detail : String) : Except Failure Unit :=
  if ok then .ok () else .error (.denied code detail)

theorem require_eq_ok {ok : Bool} {code : AuthorizationCode} {detail : String} {u : Unit} :
    require ok code detail = .ok u ↔ ok = true := by
  cases ok <;> simp [require]

/-- A value that must be there. -/
def required {α : Type} (x : Option α) (code : AuthorizationCode) (detail : String) : Except Failure α :=
  match x with
  | some a => .ok a
  | none => .error (.denied code detail)

theorem required_eq_ok {α : Type} {x : Option α} {code : AuthorizationCode} {detail : String} {a : α} :
    required x code detail = .ok a ↔ x = some a := by
  cases x <;> simp [required]

/-- `_HASH_RE.fullmatch`. -/
def isHash (s : String) : Bool :=
  s.length = 64 && s.toList.all fun c => ('0' ≤ c && c ≤ '9') || ('a' ≤ c && c ≤ 'f')

/-! ### Checks -/

section Checks

variable (rt : Runtime) (request : Request)

/-- `_required_request`. -/
def required_request : Except Failure Unit :=
  let names := [["request_id"], ["hunt_id"], ["approval_id"], ["plan_id"],
    ["execution_config_snapshot_id", "config_snapshot_id"], ["discovery_snapshot_id"], ["query_id"],
    ["execution_id", "execution_job_id"]]
  require (names.all fun n => !request.lacks n) .invalid_request "required assertion missing"

/-- `_deny_if_not_equal`: the persisted value, or the asserted one if nothing is persisted. -/
def deny_if_not_equal (row : Row) (names : List String) (code : AuthorizationCode) :
    Except Failure (Option Value) := do
  let assertion := request.value names
  let persisted := row.value names
  require (assertion.all fun a => persisted.all fun p => rt.text a = rt.text p) code
    "persisted authorization mismatch"
  pure (persisted <|> assertion)

/-- The hash a row records. -/
def recordedHash (row : Row) (names : List String) : Option String :=
  ((row.value names).filter fun v => !v.same (.text "")).map rt.text

/-- The hash a request asserts. -/
def assertedHash (names : List String) : Option String :=
  ((request.value names).filter fun v => !v.same (.text "")).map rt.text

/-- `_check_hash`: the asserted hash, or the recorded one if none is asserted. -/
def check_hash (rows : List Row) (request_names row_names : List String) (code : AuthorizationCode) :
    Except Failure String := do
  let values := rows.filterMap (recordedHash rt · row_names)
  let selected ← required (assertedHash rt request request_names <|> values.head?) code
    "authorization hash missing"
  require (isHash selected) code "authorization hash invalid"
  require (values.all (· = selected)) code "persisted authorization hash mismatch"
  pure selected

/-- `_check_scope`. -/
def check_scope (source : Row) : Except Failure Dict := do
  let scope := rt.scope source
  let sameTime := fun name => match request.value [name], scope.get name with
    | some a, some p => rt.sameTime a p
    | _, _ => false
  require (["earliest_utc", "latest_utc"].all sameTime) .scope_mismatch "approved time scope mismatch"
  let sameList := fun name =>
    match (request.value [name]).bind rt.normList, (scope.get name).bind rt.normList with
    | some a, some p => a = p
    | _, _ => false
  require (["indexes", "sourcetypes"].all sameList) .scope_mismatch "approved telemetry scope mismatch"
  require (match request.value ["requested_fields"], scope.get "requested_fields" with
    | some a, some p => rt.normList a = rt.normList p
    | _, _ => true) .scope_mismatch "approved field scope mismatch"
  pure scope

/-- One limit, which must be asserted exactly. -/
def check_limit (limits : Dict) (name : String) : Except Failure Unit :=
  match request.value [name], limits.get name with
  | some a, some p =>
      match rt.int a, rt.int p with
      | some m, some n => do
          require (m = n) .limit_mismatch "enforced limit mismatch"
          require (0 < m) .limit_mismatch "invalid enforced limit"
      | _, _ => .error (.raised "ValueError")
  | _, _ => .error (.denied .limit_mismatch "enforced limit mismatch")

/-- `_check_limits`. -/
def check_limits (source : Row) : Except Failure Dict := do
  let limits := rt.limits source
  check_limit rt request limits "max_results"
  check_limit rt request limits "max_bytes"
  check_limit rt request limits "timeout_seconds"
  pure limits

/-- `_check_policy`. -/
def check_policy (rows : List Row) : Except Failure Dict := do
  let policies := (rows.map rt.policy).filter (!·.isEmpty)
  require (!policies.isEmpty) .policy_mismatch "query policy missing"
  let version := request.value ["policy_version", "query_policy_version"]
  let hash := request.value ["policy_hash", "query_policy_hash", "policy_sha256"]
  let server_version := policies.findSome? (·.get "version")
  let server_hash := policies.findSome? (·.get "hash")
  require (match version, server_version with
    | some v, some s => rt.text v = rt.text s
    | _, _ => false) .policy_mismatch "query policy mismatch"
  require (match hash, server_hash with
    | some h, some s => isHash (rt.text h) && rt.text h = rt.text s
    | none, none => true
    | _, _ => false) .policy_mismatch "query policy hash mismatch"
  let agrees := fun (item : Dict) (name : String) (server : Option Value) =>
    (item.get name).all fun v => server.any v.same
  require (policies.all fun item => agrees item "version" server_version && agrees item "hash" server_hash)
    .policy_mismatch "persisted query policy mismatch"
  pure (("version", server_version) :: (server_hash.filter Value.truthy).toList.map (("hash", some ·)))

end Checks

/-! ### State, lease and revocation -/

/-- `_TERMINAL_STATES`. -/
def terminalStates : List String :=
  ["cancelled", "canceled", "completed", "failed", "budget_exhausted", "succeeded", "success", "stopped",
    "terminal", "closed"]

/-- `_RUNNING_STATES`. -/
def runningStates : List String := ["active", "claimed", "in_progress", "investigating", "running"]

/-- `_USABLE_CAPABILITY_STATES`. -/
def usableStates : List String := ["available", "usable", "verified", "active", "selected"]

/-- Is the text one of these? -/
def oneOf (states : List String) (state : Text) : Bool := states.any (·.toList = state)

section States

variable (rt : Runtime)

/-- `_is_cancelled`. -/
def is_cancelled (row : Row) : Bool :=
  (row.value ["cancelled", "canceled", "cancellation_requested", "cancel_requested"]).any Value.truthy ||
    (row.value ["status", "state", "phase"]).any fun v =>
      oneOf ["cancelled", "canceled", "cancellation_requested"] (rt.lower v)

/-- `_check_execution_state`. -/
def check_execution_state (execution hunt : Row) (now : Instant) : Except Failure Unit := do
  require (!is_cancelled rt execution && !is_cancelled rt hunt) .execution_cancelled "execution cancelled"
  let statuses := [execution, hunt].filterMap fun row =>
    (row.value ["status", "state", "phase"]).map rt.lower
  require (statuses.all (!oneOf terminalStates ·)) .execution_terminal "execution is terminal"
  require (!statuses.isEmpty && statuses.all (oneOf runningStates)) .execution_terminal
    "execution is not investigating"
  require ([execution, hunt].all fun row =>
      (row.value ["authorization_expires_at_utc", "expires_at_utc", "execution_expires_at_utc"]).all fun v =>
        (rt.utc v).any (now < ·)) .authorization_expired "authorization expired"

/-- `_check_lease`. -/
def check_lease (job : Row) (worker_id : Option String) (now : Instant) : Except Failure Unit := do
  let worker ← required worker_id .lease_owner_mismatch "worker identity missing"
  let owner ← required (job.value ["lease_owner", "worker_id", "claimed_by", "owner_id"]) .lease_missing
    "worker lease missing"
  require (rt.text owner = worker) .lease_owner_mismatch "worker lease owner mismatch"
  let expiry ← required ((job.value ["lease_expires_at_utc", "lease_expires_at", "expires_at_utc",
    "lease_deadline_utc"]).bind rt.utc) .lease_missing "worker lease expiry missing"
  require (now < expiry) .lease_expired "worker lease expired"
  require ((job.value ["status", "state"]).all fun v => oneOf runningStates (rt.lower v)) .lease_missing
    "worker lease is not claimed"

end States

/-! ### The rows of a request -/

/-- The rows a request names. -/
structure Rows where
  job : Row
  execution : Row
  hunt : Row
  approval : Row
  plan : Row
  config : Row
  discovery : Row
  query : Row
  /-- `execution_id`, as the rows found correct it. -/
  execution_id : String

section Load

variable (rt : Runtime) (db : Database) (request : Request)

/-- A table authorization cannot do without. -/
def requiredTable (candidates : List String) : Except Failure Table :=
  required (db.table candidates) .schema_unavailable "authorization schema incomplete"

/-- The row with this identifier under any of these columns. -/
def Table.byId (table : Table) (columns : List String) (id : String) : Option Row :=
  table.lookup (columns.map (·, some (.text id)))

/-- The columns that find the execution, of those its table has. -/
def execution_lookup (table : Table) (execution_id hunt_id : String) : List (String × Option Value) :=
  let execution_job_id := request.value ["execution_job_id"]
  if execution_job_id.any Value.truthy && "execution_job_id" ∈ table.columns then
    [("execution_job_id", execution_job_id)]
  else if "execution_id" ∈ table.columns then [("execution_id", some (.text execution_id))]
  else if "hunt_execution_id" ∈ table.columns then [("hunt_execution_id", some (.text execution_id))]
  else if "hunt_id" ∈ table.columns then [("hunt_id", some (.text hunt_id))]
  else []

/-- The execution a row is of. -/
def executionOf (row : Row) : Option String := (row.value ["execution_id", "hunt_execution_id"]).map rt.text

/-- Every row is found before any missing one is reported. -/
def load : Except Failure Rows := do
  let jobs ← requiredTable db ["execution_jobs", "execution_job", "hunt_execution_jobs"]
  let executions ← requiredTable db ["hunt_executions", "executions", "hunt_execution"]
  let hunts ← requiredTable db ["hunts", "hunt"]
  let approvals ← requiredTable db ["plan_approvals", "approvals", "hunt_approvals", "approval"]
  let plans ← requiredTable db ["plans", "hunt_plans", "hunt_plan"]
  let configs ← requiredTable db
    ["execution_config_snapshots", "execution_configs", "execution_configuration_snapshots"]
  let discoveries ← requiredTable db ["discovery_snapshots", "discovery_snapshot"]
  let queries ← requiredTable db ["query_ledger", "queries", "query_records", "hunt_queries"]
  let asserted_execution_id := request.value ["execution_id"]
  let execution_job_id := request.value ["execution_job_id"]
  let asserted := (((asserted_execution_id.filter Value.truthy) <|> execution_job_id).map rt.text).getD "None"
  let hunt_id := request.text rt ["hunt_id"]
  let config_id := request.text rt ["execution_config_snapshot_id", "config_snapshot_id"]
  let discovery_id := request.text rt ["discovery_snapshot_id"]
  let job := jobs.lookup [("execution_job_id", execution_job_id), ("job_id", execution_job_id),
    ("execution_id", asserted_execution_id)]
  let claimed := (job.bind (executionOf rt)).getD asserted
  let execution := executions.lookup (execution_lookup request executions claimed hunt_id)
  let hunt := hunts.byId ["hunt_id", "id"] hunt_id
  let approval := approvals.byId ["approval_id", "id"] (request.text rt ["approval_id"])
  let plan := plans.byId ["plan_id", "id"] (request.text rt ["plan_id"])
  let config := configs.byId ["execution_config_snapshot_id", "config_snapshot_id", "id"] config_id
  let discovery := discoveries.byId ["discovery_snapshot_id", "snapshot_id", "id"] discovery_id
  let query := queries.byId ["query_id", "id"] (request.text rt ["query_id"])
  let job ← required job .execution_not_found "execution not found"
  let execution ← required execution .execution_not_found "execution not found"
  let hunt ← required hunt .hunt_mismatch "hunt not found"
  let approval ← required approval .approval_missing "approval missing"
  let plan ← required plan .plan_missing "plan missing"
  let config ← required config .config_missing "execution config missing"
  let discovery ← required discovery .discovery_missing "discovery missing"
  let query ← required query .query_missing "query missing"
  let execution_id := (executionOf rt execution).getD claimed
  pure { job, execution, hunt, approval, plan, config, discovery, query, execution_id }

end Load

/-! ### Bindings between the rows -/

/-- What the bindings yield. -/
structure Bindings where
  owner : String
  plan_version : Option Value
  plan_hash : String
  config_hash : String
  policy : Dict
  scope : Dict
  limits : Dict

section Bindings

variable (rt : Runtime) (request : Request) (rows : Rows)

/-- Two texts both there and equal. -/
def matching (left right : Option Value) : Bool :=
  left.any fun l => right.any fun r => rt.text l = rt.text r

/-- One row's deployment scope. -/
def check_deployment_scope (row : Row) : Except Failure Unit :=
  require (matching rt (request.value ["deployment_scope_id"])
      (row.value ["deployment_scope_id", "customer_scope_id", "scope_id"]))
    .deployment_scope_mismatch "deployment scope mismatch"

/-- One row's identifier against the assertion of its first name. -/
def check_identifier (row : Row) (name : String) (others : List String) (code : AuthorizationCode) :
    Except Failure Unit :=
  require ((row.value (name :: others)).all fun p => (request.value [name]).all fun a => rt.text p = rt.text a)
    code "authorization identifier mismatch"

/-- One assertion the query must record. -/
def check_assertion (name : String) (columns : List String) (code : AuthorizationCode) :
    Except Failure Unit :=
  require (matching rt (request.value [name]) (rows.query.value columns)) code "query assertion mismatch"

/-- The scope, the owner and the hunt of the rows. -/
def check_ownership : Except Failure String := do
  let hunt_id := request.text rt ["hunt_id"]
  check_deployment_scope rt request rows.job
  check_deployment_scope rt request rows.execution
  check_deployment_scope rt request rows.hunt
  check_deployment_scope rt request rows.approval
  check_deployment_scope rt request rows.plan
  check_deployment_scope rt request rows.config
  check_deployment_scope rt request rows.discovery
  check_deployment_scope rt request rows.query
  let owner ← required (rows.hunt.value ["owner_id", "user_id", "account_id"]) .owner_mismatch
    "hunt owner missing"
  require (!rows.job.contradicts ["hunt_id"] hunt_id && !rows.execution.contradicts ["hunt_id"] hunt_id &&
    !rows.query.contradicts ["hunt_id"] hunt_id) .hunt_mismatch "cross-hunt authorization"
  pure (rt.text owner)

/-- The identifiers the rows record. -/
def check_identifiers : Except Failure Unit := do
  check_identifier rt request rows.approval "approval_id" ["id"] .approval_mismatch
  check_identifier rt request rows.plan "plan_id" ["id"] .plan_mismatch
  check_identifier rt request rows.config "execution_config_snapshot_id" ["config_snapshot_id", "id"]
    .config_mismatch
  check_identifier rt request rows.discovery "discovery_snapshot_id" ["snapshot_id", "id"] .discovery_mismatch
  check_identifier rt request rows.query "query_id" ["id"] .query_mismatch

/-- The columns that record a plan's hash. -/
def planHashColumns : List String := ["plan_sha256", "approved_plan_sha256", "content_sha256"]

/-- The columns that record a configuration's hash. -/
def configHashColumns : List String := ["execution_config_sha256", "config_sha256", "content_sha256"]

/-- The columns that record a query's hash. -/
def queryHashColumns : List String :=
  ["query_sha256", "query_hash", "normalized_query_sha256", "spl_sha256", "cache_key"]

/-- What the rows record of each other. -/
def check_references : Except Failure Unit := do
  require (!rows.plan.contradicts ["execution_config_snapshot_id", "config_snapshot_id"]
        (request.text rt ["execution_config_snapshot_id", "config_snapshot_id"]) &&
      !rows.plan.contradicts ["discovery_snapshot_id"] (request.text rt ["discovery_snapshot_id"]))
    .plan_mismatch "plan snapshot mismatch"
  require (!rows.approval.contradicts ["hunt_id"] (request.text rt ["hunt_id"]) &&
      !rows.approval.contradicts ["plan_id"] (request.text rt ["plan_id"]))
    .approval_mismatch "approval binding mismatch"
  require (!rows.query.contradicts ["execution_id"] rows.execution_id &&
      !rows.query.contradicts ["approval_id"] (request.text rt ["approval_id"]))
    .query_mismatch "query execution mismatch"

/-- Everything between the rows found and the revocations. -/
def check_bindings (worker_id : Option String) (now : Instant) : Except Failure Bindings := do
  let owner ← check_ownership rt request rows
  check_lease rt rows.job worker_id now
  check_execution_state rt rows.execution rows.hunt now
  check_identifiers rt request rows
  let plan_version ← deny_if_not_equal rt request rows.plan ["plan_version"] .plan_mismatch
  let plan_hash ← check_hash rt request [rows.approval, rows.plan] ["plan_sha256", "approved_plan_sha256"]
    planHashColumns .hash_mismatch
  let config_hash ← check_hash rt request [rows.approval, rows.config]
    ["execution_config_sha256", "config_sha256"] configHashColumns .hash_mismatch
  let _ ← check_hash rt request [rows.query] ["query_sha256", "query_hash"] queryHashColumns .query_mismatch
  check_references rt request rows
  check_assertion rt request rows "question_id" ["question_id", "approved_question_id"] .question_mismatch
  check_assertion rt request rows "purpose" ["purpose", "query_purpose"] .purpose_mismatch
  check_assertion rt request rows "expected_information_gain" ["expected_information_gain", "eig"]
    .information_gain_mismatch
  let policy ← check_policy rt request
    [rows.execution, rows.approval, rows.plan, rows.config, rows.discovery, rows.query]
  let scope ← check_scope rt request (if (rt.scope rows.query).isEmpty then rows.plan else rows.query)
  let limits ← check_limits rt request (if (rt.limits rows.query).isEmpty then rows.config else rows.query)
  pure { owner, plan_version, plan_hash, config_hash, policy, scope, limits }

end Bindings

/-! ### Revocation -/

/-- What a revocation names. -/
structure Subject where
  deployment_scope_id : String
  hunt_id : String
  execution_id : String
  execution_job_id : String
  approval_id : String

/-- The conditions on a revocation, of the columns the table has. -/
def revocation_conditions (table : Table) (subject : Subject) : List (Row → Bool) :=
  let equal := fun (column value : String) => if column ∈ table.columns then
    [fun row : Row => (row.get column).any (·.same (.text value))] else []
  let equalOrNull := fun (column value : String) (row : Row) =>
    (row.get column).all (·.same (.text value))
  equal "deployment_scope_id" subject.deployment_scope_id ++ equal "hunt_id" subject.hunt_id ++
    equal "approval_id" subject.approval_id ++
    if "execution_job_id" ∈ table.columns then [equalOrNull "execution_job_id" subject.execution_job_id]
    else if "execution_id" ∈ table.columns then [equalOrNull "execution_id" subject.execution_id]
    else []

/-- The revocations that match. -/
def matching_revocations (table : Table) (subject : Subject) : List Row :=
  table.rows.filter fun row => (revocation_conditions table subject).all (· row)

/-- A revocation dated after `now` is not in effect yet; one without a date is. -/
def inEffect (rt : Runtime) (now : Instant) (row : Row) : Bool :=
  ((row.value ["revoked_at_utc", "created_at_utc", "timestamp_utc"]).bind rt.utc).all (· ≤ now)

/-- `_check_revocation`: two of the matching revocations are read. -/
def check_revocation (rt : Runtime) (limit : Limit) (table : Option Table) (subject : Subject)
    (now : Instant) : Except Failure Unit :=
  match table with
  | none => .ok ()
  | some table => do
      require (!(revocation_conditions table subject).isEmpty) .schema_unavailable
        "revocation schema incomplete"
      require ((limit.pick 2 (matching_revocations table subject)).all (!inEffect rt now ·))
        .authorization_revoked "authorization revoked"

/-! ### Semantic requests -/

section Semantic

variable (rt : Runtime) (limit : Limit) (db : Database) (request : Request)

/-- `_is_semantic`. -/
def is_semantic : Bool :=
  let operation_type := ((request.value ["operation_type"]).map rt.lower).getD []
  let tool := ((request.value ["tool", "operation"]).map rt.lower).getD []
  oneOf ["semantic", "capability"] operation_type ||
    (!oneOf ["", "generic", "generic_spl", "execute_spl", "run_spl", "search_spl"] tool &&
      !decide ("generic".toList <:+: tool) && !decide ("spl".toList <:+: tool))

/-- The selected skill's assertion. -/
def check_skill (selection : Row) (name : String) (columns : List String) : Except Failure Unit :=
  require ((request.value [name]).all fun a => (selection.value columns).all fun p => rt.text a = rt.text p)
    .semantic_skill_required "selected skill mismatch"

/-- Is the capability one of the hunt, the discovery and the name asked for? -/
def requestedCapability (requested : Option Value) (hunt_id discovery_id : String) (row : Row) : Bool :=
  !row.contradicts ["hunt_id"] hunt_id &&
    !row.contradicts ["discovery_snapshot_id", "snapshot_id"] discovery_id &&
    requested.all fun r => ((row.value ["capability_id", "capability", "capability_name", "name"]).map
      rt.text).getD "None" = rt.text r

/-- Is the capability usable? -/
def usableCapability (row : Row) : Bool :=
  let status := ((row.value ["status", "state"]).map rt.lower).getD []
  match row.value ["usable", "is_usable", "available"] with
  | some (.bool usable) => usable
  | some _ => status = [] || oneOf usableStates status
  | none => oneOf usableStates status

/-- `_semantic_capabilities`. -/
def semantic_capabilities (hunt_id discovery_id : String) : Except Failure (List Row) := do
  let hunt := ("hunt_id", some (Value.text hunt_id))
  let selections := db.table ["hunt_skill_selections", "skill_selections", "plan_skill_selections"]
  let selection ← required (selections.bind fun table =>
    table.lookup [hunt, ("discovery_snapshot_id", some (.text discovery_id))] <|> table.lookup [hunt])
    .semantic_skill_required "selected pinned skill missing"
  let status := ((selection.value ["selection_status", "status"]).map rt.lower).getD []
  let unpinned := match selection.value ["pinned", "is_pinned", "selected"] with
    | some (.bool false) => true
    | _ => false
  require (oneOf ["selected", "pinned", "approved", "active"] status && !unpinned) .semantic_skill_required
    "selected pinned skill missing"
  check_skill rt request selection "skill_id" ["skill_id", "primary_skill_id"]
  check_skill rt request selection "skill_version" ["skill_version", "version"]
  check_skill rt request selection "skill_sha256" ["skill_sha256", "content_sha256", "skill_hash"]
  let table ← required (db.table
      ["capability_bindings", "hunt_capability_bindings", "capabilities", "telemetry_capabilities"])
    .semantic_capability_missing "usable capability missing"
  let names := ["capability_id", "capability", "capability_name", "required_capability"]
  let requested := if request.lacks names then request.value ["tool", "operation"] else request.value names
  let candidates := (limit.pick 100 table.rows).filter (requestedCapability rt requested hunt_id discovery_id)
  require (candidates.all fun row => !(row.value ["ambiguous", "is_ambiguous"]).any Value.truthy)
    .semantic_capability_ambiguous "capability mapping ambiguous"
  let rows := candidates.filter (usableCapability rt)
  require (rows.length ≤ 1) .semantic_capability_ambiguous "capability mapping ambiguous"
  require (!rows.isEmpty) .semantic_capability_missing "usable capability missing"
  pure rows

end Semantic

/-! ### Authorization -/

/-- Who calls: the arguments of `authorize_mcp_tool_request` and the configured subject. -/
structure Caller where
  authenticated_subject : Option String
  configured_subject : Option String
  envelope_worker_id : Option String
  worker_id : Option String

/-- `AuthorizedMCPContext`. -/
structure AuthorizedMCPContext where
  request_id : String
  tool : String
  authenticated_subject : String
  worker_id : String
  deployment_scope_id : String
  owner_id : String
  hunt_id : String
  execution_id : String
  execution_job_id : Option String
  approval_id : String
  plan_id : String
  plan_version : Option Int
  plan_sha256 : String
  execution_config_snapshot_id : String
  execution_config_sha256 : String
  discovery_snapshot_id : String
  query_id : String
  question_id : String
  purpose : String
  expected_information_gain : String
  scope : Dict
  policy : Dict
  limits : Dict
  query : Row
  capability_bindings : List Row

/-- `a or b` of texts that may be missing. -/
def firstText (a b : Option String) : Option String := if a.any (· ≠ "") then a else b

section Authorize

variable (rt : Runtime) (limit : Limit) (db : Database) (caller : Caller) (request : Request)

/-- The subject and the worker of a request. -/
def check_caller : Except Failure (String × Option Value) := do
  let asserted_subject := request.value ["authenticated_subject"]
  let subject ← required
    ((((caller.authenticated_subject.filter (· ≠ "")).map Value.text) <|> asserted_subject).filter
      Value.truthy) .unauthenticated_subject "service subject not authorized"
  require (caller.configured_subject.any fun c => c ≠ "" && rt.text subject = c) .unauthenticated_subject
    "service subject not authorized"
  require (caller.authenticated_subject.all fun s => asserted_subject.all (·.same (.text s)))
    .unauthenticated_subject "service subject assertion mismatch"
  required_request request
  let envelope := firstText caller.envelope_worker_id caller.worker_id
  let effective_worker := ((envelope.filter (· ≠ "")).map Value.text) <|> request.value ["worker_id"]
  require (envelope.all fun _ => (request.value ["worker_id", "lease_owner"]).all fun a =>
    effective_worker.any a.same) .lease_owner_mismatch "worker lease assertion mismatch"
  pure (rt.text subject, effective_worker)

/-- `int(plan_version) if plan_version is not None else None`. -/
def plan_version_of (plan_version : Option Value) : Except Failure (Option Int) :=
  match plan_version with
  | none => .ok none
  | some v =>
      match rt.int v with
      | some n => .ok (some n)
      | none => .error (.raised "ValueError")

/-- `str(execution_job_id or _row_value(job, "execution_job_id", "job_id", default=""))`. -/
def job_id_of (job : Row) : String :=
  ((((request.value ["execution_job_id"]).filter Value.truthy) <|>
    job.value ["execution_job_id", "job_id"]).map rt.text).getD ""

/-- What a revocation has to name to revoke the request. -/
def subject_of (rows : Rows) : Subject where
  deployment_scope_id := request.text rt ["deployment_scope_id"]
  hunt_id := request.text rt ["hunt_id"]
  execution_id := rows.execution_id
  execution_job_id := job_id_of rt request rows.job
  approval_id := request.text rt ["approval_id"]

/-- The capabilities of a semantic request. -/
def capabilities_of : Except Failure (List Row) :=
  if is_semantic rt request then
    semantic_capabilities rt limit db request (request.text rt ["hunt_id"])
      (request.text rt ["discovery_snapshot_id"])
  else .ok []

/-- The tables revocations are kept in. -/
def revocationTables : List String := ["execution_authorization_revocations", "authorization_revocations"]

/-- The context of a request whose rows are found and bound. -/
def contextOf (subject : String) (worker : Option Value) (rows : Rows) (bound : Bindings)
    (capability_bindings : List Row) : Except Failure AuthorizedMCPContext := do
  let plan_version ← plan_version_of rt bound.plan_version
  pure {
    request_id := request.text rt ["request_id"]
    tool := ((request.value ["tool", "operation"]).map rt.text).getD "generic_spl"
    authenticated_subject := subject
    worker_id := (worker.map rt.text).getD "None"
    deployment_scope_id := request.text rt ["deployment_scope_id"]
    owner_id := bound.owner
    hunt_id := request.text rt ["hunt_id"]
    execution_id := rows.execution_id
    execution_job_id := some (job_id_of rt request rows.job) |>.filter (· ≠ "")
    approval_id := request.text rt ["approval_id"]
    plan_id := request.text rt ["plan_id"]
    plan_version
    plan_sha256 := bound.plan_hash
    execution_config_snapshot_id := request.text rt ["execution_config_snapshot_id", "config_snapshot_id"]
    execution_config_sha256 := bound.config_hash
    discovery_snapshot_id := request.text rt ["discovery_snapshot_id"]
    query_id := request.text rt ["query_id"]
    question_id := request.text rt ["question_id"]
    purpose := request.text rt ["purpose"]
    expected_information_gain := request.text rt ["expected_information_gain"]
    scope := bound.scope
    policy := bound.policy
    limits := bound.limits
    query := rows.query
    capability_bindings }

/-- `authorize_mcp_tool_request`. -/
def authorize_mcp_tool_request (now : Instant) : Except Failure AuthorizedMCPContext := do
  let (subject, worker) ← check_caller rt caller request
  let rows ← load rt db request
  let bound ← check_bindings rt request rows ((worker.filter Value.truthy).map rt.text) now
  check_revocation rt limit (db.table revocationTables) (subject_of rt request rows) now
  let capabilities ← capabilities_of rt limit db request
  contextOf rt request subject worker rows bound capabilities

end Authorize

end Mcp

end ThreatHunting
