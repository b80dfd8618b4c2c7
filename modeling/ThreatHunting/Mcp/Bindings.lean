import ThreatHunting.Mcp.Authorization

/-!
# ThreatHunting.Mcp.Bindings

What a context rests on. Each check says what it has compared; a null column is compared with
nothing, and then the context carries what the request asserts. So the context rests on what
the database records exactly when the columns that bind its rows are recorded.
-/

namespace ThreatHunting

namespace Mcp

open Fallible

variable {rt : Runtime} {limit : Limit} {db : Database} {caller : Caller} {request : Request}

/-! ### What each check has compared -/

theorem deny_if_not_equal_eq_ok {row : Row} {names : List String} {code : AuthorizationCode}
    {v : Option Value} (h : deny_if_not_equal rt request row names code = .ok v) :
    v = (row.value names <|> request.value names) := by
  simp only [deny_if_not_equal, bind_eq_ok] at h
  obtain ⟨_, _, h⟩ := h
  cases h
  rfl

/-- Every hash the rows record is the one returned. -/
theorem check_hash_eq_ok {rows : List Row} {names columns : List String} {code : AuthorizationCode}
    {hash : String} (h : check_hash rt request rows names columns code = .ok hash) {row : Row}
    (hrow : row ∈ rows) {recorded : String} (hrecorded : recordedHash rt row columns = some recorded) :
    recorded = hash := by
  simp only [check_hash, bind_eq_ok, require_eq_ok, required_eq_ok] at h
  obtain ⟨selected, _, _, _, _, hall, h⟩ := h
  cases h
  have hmem : recorded ∈ rows.filterMap (recordedHash rt · columns) :=
    List.mem_filterMap.mpr ⟨row, hrow, hrecorded⟩
  simpa using List.all_eq_true.mp hall recorded hmem

theorem plan_version_of_eq_ok {v : Option Value} {n : Option Int} (h : plan_version_of rt v = .ok n) :
    n = v.bind rt.int := by
  unfold plan_version_of at h
  split at h
  · cases h
    rfl
  · split at h
    next hn =>
      cases h
      exact hn.symm
    next => cases h

/-- The rows of a request are rows of the tables they are looked up in. -/
structure InDatabase (db : Database) (rows : Rows) : Prop where
  job : ∃ t ∈ db, rows.job ∈ t.2.rows
  execution : ∃ t ∈ db, rows.execution ∈ t.2.rows
  hunt : ∃ t ∈ db, rows.hunt ∈ t.2.rows
  approval : ∃ t ∈ db, rows.approval ∈ t.2.rows
  plan : ∃ t ∈ db, rows.plan ∈ t.2.rows
  config : ∃ t ∈ db, rows.config ∈ t.2.rows
  discovery : ∃ t ∈ db, rows.discovery ∈ t.2.rows
  query : ∃ t ∈ db, rows.query ∈ t.2.rows

theorem mem_of_requiredTable {candidates : List String} {table : Table}
    (h : requiredTable db candidates = .ok table) : ∃ t ∈ db, t.2 = table := by
  rw [requiredTable, required_eq_ok] at h
  obtain ⟨name, _, hname⟩ := List.exists_of_findSome?_eq_some h
  obtain ⟨t, ht, rfl⟩ := Option.map_eq_some_iff.mp hname
  exact ⟨t, List.mem_of_find?_eq_some ht, rfl⟩

/-- A row found in a required table is in the database. -/
theorem persisted_of_lookup {candidates : List String} {table : Table}
    (h : requiredTable db candidates = .ok table) {identifiers : List (String × Option Value)} {row : Row}
    (hrow : table.lookup identifiers = some row) : ∃ t ∈ db, row ∈ t.2.rows := by
  obtain ⟨t, ht, rfl⟩ := mem_of_requiredTable h
  exact ⟨t, ht, Table.mem_of_lookup hrow⟩

/-- The rows loaded are rows of the database, and the execution is the one they record. -/
theorem load_eq_ok {rows : Rows} (h : load rt db request = .ok rows) :
    InDatabase db rows ∧ ∃ asserted, rows.execution_id =
      (executionOf rt rows.execution).getD ((executionOf rt rows.job).getD asserted) := by
  simp only [load, bind_eq_ok, required_eq_ok] at h
  obtain ⟨jobs, hjobs, executions, hexecutions, hunts, hhunts, approvals, happrovals, plans, hplans,
    configs, hconfigs, discoveries, hdiscoveries, queries, hqueries, job, hjob, execution, hexecution, hunt,
    hhunt, approval, happroval, plan, hplan, config, hconfig, discovery, hdiscovery, query, hquery, h⟩ := h
  cases h
  constructor
  · exact {
      job := persisted_of_lookup hjobs hjob
      execution := persisted_of_lookup hexecutions hexecution
      hunt := persisted_of_lookup hhunts hhunt
      approval := persisted_of_lookup happrovals happroval
      plan := persisted_of_lookup hplans hplan
      config := persisted_of_lookup hconfigs hconfig
      discovery := persisted_of_lookup hdiscoveries hdiscovery
      query := persisted_of_lookup hqueries hquery }
  · rw [hjob]
    exact ⟨_, rfl⟩

/-- What the checks between the rows have compared. -/
structure Bound (rt : Runtime) (request : Request) (rows : Rows) (bound : Bindings) : Prop where
  job_hunt : rows.job.contradicts ["hunt_id"] (request.text rt ["hunt_id"]) = false
  execution_hunt : rows.execution.contradicts ["hunt_id"] (request.text rt ["hunt_id"]) = false
  query_hunt : rows.query.contradicts ["hunt_id"] (request.text rt ["hunt_id"]) = false
  approval_hunt : rows.approval.contradicts ["hunt_id"] (request.text rt ["hunt_id"]) = false
  approval_plan : rows.approval.contradicts ["plan_id"] (request.text rt ["plan_id"]) = false
  query_execution : rows.query.contradicts ["execution_id"] rows.execution_id = false
  query_approval : rows.query.contradicts ["approval_id"] (request.text rt ["approval_id"]) = false
  plan_version : bound.plan_version = (rows.plan.value ["plan_version"] <|> request.value ["plan_version"])
  plan_hash : ∀ row ∈ [rows.approval, rows.plan], ∀ hash,
    recordedHash rt row planHashColumns = some hash → hash = bound.plan_hash
  config_hash : ∀ row ∈ [rows.approval, rows.config], ∀ hash,
    recordedHash rt row configHashColumns = some hash → hash = bound.config_hash

theorem check_bindings_eq_ok {rows : Rows} {worker_id : Option String} {now : Instant} {bound : Bindings}
    (h : check_bindings rt request rows worker_id now = .ok bound) : Bound rt request rows bound := by
  simp only [check_bindings, bind_eq_ok] at h
  obtain ⟨owner, howner, _, _, _, _, _, _, version, hversion, plan_hash, hplan, config_hash, hconfig, _, _, _,
    href, _, _, _, _, _, _, policy, _, scope, _, limits, _, h⟩ := h
  cases h
  simp only [check_ownership, bind_eq_ok, require_eq_ok] at howner
  obtain ⟨_, _, _, _, _, _, _, _, _, _, _, _, _, _, _, _, _, _, _, hhunts, _⟩ := howner
  simp only [check_references, bind_eq_ok, require_eq_ok] at href
  obtain ⟨_, _, _, happroval, hquery⟩ := href
  simp only [Bool.and_eq_true, Bool.not_eq_true'] at hhunts happroval hquery
  exact {
    job_hunt := hhunts.1.1
    execution_hunt := hhunts.1.2
    query_hunt := hhunts.2
    approval_hunt := happroval.1
    approval_plan := happroval.2
    query_execution := hquery.1
    query_approval := hquery.2
    plan_version := deny_if_not_equal_eq_ok hversion
    plan_hash := fun row hrow hash hrecorded => check_hash_eq_ok hplan hrow hrecorded
    config_hash := fun row hrow hash hrecorded => check_hash_eq_ok hconfig hrow hrecorded }

/-- What a context says of its rows. -/
structure OfRows (rt : Runtime) (request : Request) (rows : Rows) (bound : Bindings)
    (ctx : AuthorizedMCPContext) : Prop where
  hunt_id : ctx.hunt_id = request.text rt ["hunt_id"]
  plan_id : ctx.plan_id = request.text rt ["plan_id"]
  approval_id : ctx.approval_id = request.text rt ["approval_id"]
  config_id : ctx.execution_config_snapshot_id =
    request.text rt ["execution_config_snapshot_id", "config_snapshot_id"]
  execution_id : ctx.execution_id = rows.execution_id
  plan_version : ctx.plan_version = bound.plan_version.bind rt.int
  plan_hash : ctx.plan_sha256 = bound.plan_hash
  config_hash : ctx.execution_config_sha256 = bound.config_hash
  query : ctx.query = rows.query

theorem contextOf_eq_ok {subject : String} {worker : Option Value} {rows : Rows} {bound : Bindings}
    {capabilities : List Row} {ctx : AuthorizedMCPContext}
    (h : contextOf rt request subject worker rows bound capabilities = .ok ctx) :
    OfRows rt request rows bound ctx := by
  simp only [contextOf, bind_eq_ok] at h
  obtain ⟨version, hversion, h⟩ := h
  cases h
  exact {
    hunt_id := rfl
    plan_id := rfl
    approval_id := rfl
    config_id := rfl
    execution_id := rfl
    plan_version := plan_version_of_eq_ok hversion
    plan_hash := rfl
    config_hash := rfl
    query := rfl }

/-- A context comes of rows loaded, bound and not revoked. -/
theorem authorize_eq_ok {now : Instant} {ctx : AuthorizedMCPContext}
    (h : authorize_mcp_tool_request rt limit db caller request now = .ok ctx) :
    ∃ rows bound, load rt db request = .ok rows ∧ Bound rt request rows bound ∧
      check_revocation rt limit (db.table revocationTables) (subject_of rt request rows) now = .ok () ∧
      OfRows rt request rows bound ctx := by
  simp only [authorize_mcp_tool_request, bind_eq_ok] at h
  obtain ⟨who, _, rows, hload, bound, hbound, _, hrevoked, capabilities, _, h⟩ := h
  exact ⟨rows, bound, hload, check_bindings_eq_ok hbound, hrevoked, contextOf_eq_ok h⟩

/-! ### What a context should rest on -/

/-- The row records that it is of the hunt. -/
def Row.ofHunt (row : Row) (hunt_id : String) : Prop := row.value ["hunt_id"] = some (.text hunt_id)

/-- The configuration is the hunt's: it says so itself, or the approval says so. -/
def configOfHunt (rows : Rows) (hunt_id config_id : String) : Prop :=
  rows.config.ofHunt hunt_id ∨
    rows.approval.value ["execution_config_snapshot_id", "config_snapshot_id"] = some (.text config_id)

/-- The context rests on its rows: what it returns is recorded for its hunt, and the rows record
that they belong to its hunt, to its execution and to its plan version. -/
structure Persisted (rt : Runtime) (rows : Rows) (ctx : AuthorizedMCPContext) : Prop where
  plan_hash : ∃ row ∈ [rows.approval, rows.plan],
    row.ofHunt ctx.hunt_id ∧ recordedHash rt row planHashColumns = some ctx.plan_sha256
  config_hash : recordedHash rt rows.approval configHashColumns = some ctx.execution_config_sha256 ∨
    configOfHunt rows ctx.hunt_id ctx.execution_config_snapshot_id ∧
      recordedHash rt rows.config configHashColumns = some ctx.execution_config_sha256
  query_hash : ctx.query = rows.query
  one_hunt : ∀ row ∈ [rows.job, rows.execution, rows.query, rows.approval], row.ofHunt ctx.hunt_id
  one_execution : ∀ row ∈ [rows.job, rows.execution], executionOf rt row = some ctx.execution_id
  query_execution : rows.query.value ["execution_id"] = some (.text ctx.execution_id)
  query_approval : rows.query.value ["approval_id"] = some (.text ctx.approval_id)
  approval_plan : rows.approval.value ["plan_id"] = some (.text ctx.plan_id)
  plan_version : ∃ n v, ctx.plan_version = some n ∧ rows.approval.value ["plan_version"] = some v ∧
    rt.int v = some n
  one_version : ∀ row ∈ [rows.job, rows.execution, rows.query], ∀ v,
    row.value ["plan_version"] = some v → rt.int v = ctx.plan_version

/-- The plan version to authorize: the plan's, or the asserted one if the plan records none. -/
def versionToAuthorize (rt : Runtime) (request : Request) (rows : Rows) : Option Int :=
  (rows.plan.value ["plan_version"] <|> request.value ["plan_version"]).bind rt.int

/-- The columns that bind the rows are recorded, and the plan versions are one. -/
structure Recorded (rt : Runtime) (request : Request) (rows : Rows) : Prop where
  plan_hash : (recordedHash rt rows.approval planHashColumns).isSome ∨
    rows.plan.ofHunt (request.text rt ["hunt_id"]) ∧ (recordedHash rt rows.plan planHashColumns).isSome
  config_hash : (recordedHash rt rows.approval configHashColumns).isSome ∨
    configOfHunt rows (request.text rt ["hunt_id"])
        (request.text rt ["execution_config_snapshot_id", "config_snapshot_id"]) ∧
      (recordedHash rt rows.config configHashColumns).isSome
  hunt_ids : ∀ row ∈ [rows.job, rows.execution, rows.query, rows.approval], (row.value ["hunt_id"]).isSome
  execution_ids : (executionOf rt rows.execution).isSome ∧
    executionOf rt rows.job = executionOf rt rows.execution
  query_ids : (rows.query.value ["execution_id"]).isSome ∧ (rows.query.value ["approval_id"]).isSome
  approval_plan : (rows.approval.value ["plan_id"]).isSome
  plan_version : ∃ n v, versionToAuthorize rt request rows = some n ∧
    rows.approval.value ["plan_version"] = some v ∧ rt.int v = some n
  one_version : ∀ row ∈ [rows.job, rows.execution, rows.query], ∀ v,
    row.value ["plan_version"] = some v → rt.int v = versionToAuthorize rt request rows

section Context

variable {rows : Rows} {bound : Bindings} {ctx : AuthorizedMCPContext}

/-- A column that does not contradict a text records it, if it records anything. -/
theorem value_iff_isSome {row : Row} {names : List String} {text : String}
    (h : row.contradicts names text = false) :
    row.value names = some (.text text) ↔ (row.value names).isSome := by
  constructor
  · intro hv
    rw [hv]
    rfl
  · intro hs
    obtain ⟨v, hv⟩ := Option.isSome_iff_exists.mp hs
    rw [hv, Row.value_of_not_contradicts h hv]

/-- A hash that can only be the one given is recorded if any is. -/
theorem hash_iff_isSome {row : Row} {columns : List String} {hash : String}
    (h : ∀ recorded, recordedHash rt row columns = some recorded → recorded = hash) :
    recordedHash rt row columns = some hash ↔ (recordedHash rt row columns).isSome := by
  constructor
  · intro hr
    rw [hr]
    rfl
  · intro hs
    obtain ⟨recorded, hr⟩ := Option.isSome_iff_exists.mp hs
    rw [hr, h recorded hr]

/-- The four rows that record a hunt record the request's. -/
theorem ofHunt_iff (hb : Bound rt request rows bound) {row : Row}
    (hrow : row ∈ [rows.job, rows.execution, rows.query, rows.approval]) :
    row.ofHunt (request.text rt ["hunt_id"]) ↔ (row.value ["hunt_id"]).isSome := by
  refine value_iff_isSome ?_
  simp only [List.mem_cons, List.not_mem_nil, or_false] at hrow
  obtain rfl | rfl | rfl | rfl := hrow
  · exact hb.job_hunt
  · exact hb.execution_hunt
  · exact hb.query_hunt
  · exact hb.approval_hunt

/-- The execution the context names is the one its execution row records, if it records one. -/
theorem execution_iff {asserted : String} (he : rows.execution_id =
      (executionOf rt rows.execution).getD ((executionOf rt rows.job).getD asserted)) :
    (∀ row ∈ [rows.job, rows.execution], executionOf rt row = some rows.execution_id) ↔
      (executionOf rt rows.execution).isSome ∧ executionOf rt rows.job = executionOf rt rows.execution := by
  constructor
  · intro h
    have hjob := h rows.job (by simp)
    have hexecution := h rows.execution (by simp)
    rw [hjob, hexecution]
    exact ⟨rfl, rfl⟩
  · intro h
    obtain ⟨id, hid⟩ := Option.isSome_iff_exists.mp h.1
    have hrow : rows.execution_id = id := by rw [he, hid, Option.getD_some]
    intro row hmem
    simp only [List.mem_cons, List.not_mem_nil, or_false] at hmem
    obtain rfl | rfl := hmem
    · rw [h.2, hid, hrow]
    · rw [hid, hrow]

/-- A context rests on its rows exactly when they record what binds them. -/
theorem persisted_iff_recorded (hb : Bound rt request rows bound) (hc : OfRows rt request rows bound ctx)
    {asserted : String} (he : rows.execution_id =
      (executionOf rt rows.execution).getD ((executionOf rt rows.job).getD asserted)) :
    Persisted rt rows ctx ↔ Recorded rt request rows := by
  have hversion : ctx.plan_version = versionToAuthorize rt request rows := by
    rw [hc.plan_version, hb.plan_version, versionToAuthorize]
  have happroval : rows.approval.ofHunt (request.text rt ["hunt_id"]) ↔
      (rows.approval.value ["hunt_id"]).isSome := ofHunt_iff hb (by simp)
  have hash : ∀ row ∈ [rows.approval, rows.plan], recordedHash rt row planHashColumns = some ctx.plan_sha256 ↔
      (recordedHash rt row planHashColumns).isSome := by
    intro row hrow
    rw [hc.plan_hash]
    exact hash_iff_isSome (hb.plan_hash row hrow)
  have config : ∀ row ∈ [rows.approval, rows.config],
      recordedHash rt row configHashColumns = some ctx.execution_config_sha256 ↔
        (recordedHash rt row configHashColumns).isSome := by
    intro row hrow
    rw [hc.config_hash]
    exact hash_iff_isSome (hb.config_hash row hrow)
  constructor
  · intro h
    exact {
      plan_hash := by
        obtain ⟨row, hrow, hhunt, hrecorded⟩ := h.plan_hash
        have hsome := (hash row hrow).mp hrecorded
        simp only [List.mem_cons, List.not_mem_nil, or_false] at hrow
        obtain rfl | rfl := hrow
        · exact .inl hsome
        · exact .inr ⟨hc.hunt_id ▸ hhunt, hsome⟩
      config_hash := by
        rw [← config rows.approval (by simp), ← config rows.config (by simp), ← hc.hunt_id, ← hc.config_id]
        exact h.config_hash
      hunt_ids := fun row hrow => (ofHunt_iff hb hrow).mp (hc.hunt_id ▸ h.one_hunt row hrow)
      execution_ids := (execution_iff he).mp (hc.execution_id ▸ h.one_execution)
      query_ids := ⟨Option.isSome_iff_exists.mpr ⟨_, h.query_execution⟩,
        Option.isSome_iff_exists.mpr ⟨_, h.query_approval⟩⟩
      approval_plan := Option.isSome_iff_exists.mpr ⟨_, h.approval_plan⟩
      plan_version := hversion ▸ h.plan_version
      one_version := hversion ▸ h.one_version }
  · intro h
    exact {
      plan_hash := by
        obtain hsome | ⟨hhunt, hsome⟩ := h.plan_hash
        · refine ⟨rows.approval, by simp, ?_, (hash rows.approval (by simp)).mpr hsome⟩
          rw [hc.hunt_id]
          exact happroval.mpr (h.hunt_ids rows.approval (by simp))
        · refine ⟨rows.plan, by simp, ?_, (hash rows.plan (by simp)).mpr hsome⟩
          rw [hc.hunt_id]
          exact hhunt
      config_hash := by
        rw [config rows.approval (by simp), config rows.config (by simp), hc.hunt_id, hc.config_id]
        exact h.config_hash
      query_hash := hc.query
      one_hunt := fun row hrow => hc.hunt_id ▸ (ofHunt_iff hb hrow).mpr (h.hunt_ids row hrow)
      one_execution := hc.execution_id ▸ (execution_iff he).mpr h.execution_ids
      query_execution := hc.execution_id ▸ (value_iff_isSome hb.query_execution).mpr h.query_ids.1
      query_approval := hc.approval_id ▸ (value_iff_isSome hb.query_approval).mpr h.query_ids.2
      approval_plan := hc.plan_id ▸ (value_iff_isSome hb.approval_plan).mpr h.approval_plan
      plan_version := hversion ▸ h.plan_version
      one_version := hversion ▸ h.one_version }

end Context

/-- Whatever the database holds and the request asserts, a context that is returned comes of rows
of the database, and rests on them exactly when they record what binds them. -/
theorem authorization_rests_on_rows (rt : Runtime) (limit : Limit) (db : Database) (caller : Caller)
    (request : Request) (now : Instant) (ctx : AuthorizedMCPContext)
    (h : authorize_mcp_tool_request rt limit db caller request now = .ok ctx) :
    ∃ rows, load rt db request = .ok rows ∧ InDatabase db rows ∧
      (Persisted rt rows ctx ↔ Recorded rt request rows) := by
  obtain ⟨rows, bound, hload, hb, _, hc⟩ := authorize_eq_ok h
  obtain ⟨hin, asserted, he⟩ := load_eq_ok hload
  exact ⟨rows, hload, hin, persisted_iff_recorded hb hc he⟩

/-! ### A sample deployment -/

/-- The library functions on values without text timestamps or text JSON. -/
def sampleRuntime : Runtime where
  str
    | .bool true => "True"
    | .bool false => "False"
    | _ => ""
  int
    | .int n => some n
    | .bool b => some (if b then 1 else 0)
    | _ => none
  fromisoformat _ := none
  loads _ := none

/-- A text of the form of a SHA-256. -/
def sampleHash (digit : Char) : String := .ofList (.replicate 64 digit)

/-- A limit that returns the first rows. -/
def sampleLimit : Limit := .preferring fun _ => true

/-- The service calls for its worker. -/
def sampleCaller : Caller where
  authenticated_subject := none
  configured_subject := some "worker/customer-a"
  envelope_worker_id := some "worker-a"
  worker_id := none

/-- A request that asserts this plan hash. -/
def sampleRequest (plan_sha256 : String) : Request where
  values := [("request_id", .text "req-1"), ("tool", .text "generic_spl"),
    ("authenticated_subject", .text "worker/customer-a"), ("worker_id", .text "worker-a"),
    ("deployment_scope_id", .text "customer-a"), ("hunt_id", .text "hunt"), ("execution_id", .text "execution"),
    ("approval_id", .text "approval"), ("plan_id", .text "plan"), ("plan_version", .int 2),
    ("plan_sha256", .text plan_sha256), ("execution_config_snapshot_id", .text "config"),
    ("execution_config_sha256", .text (sampleHash 'b')),
    ("discovery_snapshot_id", .text "discovery"), ("query_id", .text "query"),
    ("query_sha256", .text (sampleHash 'c')),
    ("question_id", .text "q1"), ("purpose", .text "find process"), ("expected_information_gain", .text "high"),
    ("earliest_utc", .time 0), ("latest_utc", .time 1), ("indexes", .json (.array [.string "main"])),
    ("sourcetypes", .json (.array [.string "sysmon"])), ("max_results", .int 100), ("max_bytes", .int 10000),
    ("timeout_seconds", .int 30), ("policy_version", .text "policy-1")]
  sections := []

/-- A table of these rows, with the columns of the first. -/
def sampleTable (rows : List Row) : Table := ⟨(rows.headD []).map (·.1), rows⟩

/-- The rows a request names, with these columns for the approval's and the plan's hash and these
revocations. -/
def sampleDatabase (approval_hash plan_hash : Row) (revocations : List Row) : Database :=
  let scope : String × Value := ("deployment_scope_id", .text "customer-a")
  let hunt : String × Value := ("hunt_id", .text "hunt")
  [("execution_jobs", sampleTable [[("job_id", .text "job"), ("execution_id", .text "execution"), hunt, scope,
      ("worker_id", .text "worker-a"), ("lease_expires_at_utc", .time 200), ("status", .text "claimed")]]),
    ("hunt_executions", sampleTable [[("execution_id", .text "execution"), hunt, scope,
      ("status", .text "running"), ("policy_version", .text "policy-1"), ("expires_at_utc", .time 300)]]),
    ("hunts", sampleTable [[hunt, ("owner_id", .text "analyst-a"), scope, ("status", .text "investigating")]]),
    ("plan_approvals", sampleTable [[("approval_id", .text "approval"), hunt, ("plan_id", .text "plan"),
      ("plan_version", .int 2), ("execution_config_snapshot_id", .text "config"), scope] ++ approval_hash]),
    ("plans", sampleTable [[("plan_id", .text "plan"), hunt, ("plan_version", .int 2),
      ("execution_config_snapshot_id", .text "config"), ("discovery_snapshot_id", .text "discovery"), scope] ++
      plan_hash]),
    ("execution_config_snapshots", sampleTable [[("execution_config_snapshot_id", .text "config"),
      ("execution_config_sha256", .text (sampleHash 'b')),
      scope, ("policy_version", .text "policy-1")]]),
    ("discovery_snapshots", sampleTable [[("discovery_snapshot_id", .text "discovery"), hunt, scope]]),
    ("query_ledger", sampleTable [[("query_id", .text "query"), hunt, ("execution_id", .text "execution"),
      ("approval_id", .text "approval"), scope, ("question_id", .text "q1"), ("purpose", .text "find process"),
      ("expected_information_gain", .text "high"),
      ("query_sha256", .text (sampleHash 'c')),
      ("policy_version", .text "policy-1"), ("earliest_utc", .time 0), ("latest_utc", .time 1),
      ("indexes", .json (.array [.string "main"])), ("sourcetypes", .json (.array [.string "sysmon"])),
      ("max_results", .int 100), ("max_bytes", .int 10000), ("timeout_seconds", .int 30)]]),
    ("execution_authorization_revocations", ⟨["revocation_id", "deployment_scope_id", "execution_id", "hunt_id",
      "approval_id", "reason_code", "revoked_by_subject", "revoked_at_utc"], revocations⟩)]

/-- A request whose rows all record what binds them. -/
theorem authorization_of_recorded_rows :
    let db := sampleDatabase [("plan_sha256", .text (sampleHash 'a'))] [] []
    let request := sampleRequest (sampleHash 'a')
    ∃ ctx rows, authorize_mcp_tool_request sampleRuntime sampleLimit db sampleCaller request 100 = .ok ctx ∧
      load sampleRuntime db request = .ok rows ∧ InDatabase db rows ∧
      (Persisted sampleRuntime rows ctx ↔ Recorded sampleRuntime request rows) := by
  intro db request
  have allowed :
      (authorize_mcp_tool_request sampleRuntime sampleLimit db sampleCaller request 100).toBool = true := by
    rfl
  obtain ⟨ctx, hctx⟩ := exists_of_toBool allowed
  obtain ⟨rows, hrows⟩ := authorization_rests_on_rows _ _ _ _ _ _ _ hctx
  exact ⟨ctx, rows, hctx, hrows⟩

/-- No row records a plan hash, and the one asserted is returned as authorized. -/
theorem asserted_plan_hash_is_returned :
    let db := sampleDatabase [] [] []
    let request := sampleRequest (sampleHash 'f')
    ∃ ctx, authorize_mcp_tool_request sampleRuntime sampleLimit db sampleCaller request 100 = .ok ctx ∧
      ctx.plan_sha256 = sampleHash 'f' ∧
      ∀ t ∈ db, ∀ row ∈ t.2.rows, ∀ column ∈ row, column.2 ≠ .text (sampleHash 'f') := by
  intro db request
  have returned : (authorize_mcp_tool_request sampleRuntime sampleLimit db sampleCaller request
      100).toOption.map (·.plan_sha256) = some (sampleHash 'f') := by rfl
  obtain ⟨ctx, hctx, hash⟩ := Option.map_eq_some_iff.mp returned
  refine ⟨ctx, toOption_eq_some.mp hctx, hash, ?_⟩
  have absent : db.all fun t => t.2.rows.all fun row => row.all fun column =>
      !column.2.same (.text (sampleHash 'f')) := by rfl
  simp only [List.all_eq_true, Bool.not_eq_true'] at absent
  intro t ht row hrow column hcolumn heq
  have different := absent t ht row hrow column hcolumn
  rw [heq] at different
  simp [Value.same] at different

end Mcp

end ThreatHunting
