import ThreatHunting.Lib.Procedure
import ThreatHunting.Services.ModelOutput

/-!
# ThreatHunting.Mcp.Connector

`MCPConnector` of `integrations/mcp.py`: a client of the MCP transport that keeps a row of the
request ledger for each submission. A submission reserves its row, calls the transport, and writes
the outcome; a replay reads the row, and asks the transport for the status where no job is known.
Every step may fail, and every worker may be gone after any of them.

The transport's call is two events, its invocation and its response, so that a call that never
returns still counts as made.
-/

namespace ThreatHunting

open Store
open ModelOutput (Members get truthy)

namespace Mcp.Connector

/-! ### Envelopes -/

/-- What the connector raises or lets through. -/
inductive McpFault
  | adapter_error (category : FailureCategory) (message operation : String)
  | sqlalchemy_error
  | recursion_error
  | value_error (message : String)
  deriving DecidableEq

/-- The pure code the connector rests on, and its configuration. -/
structure MCPConnector where
  service_subject : Option String
  submit_tool : String
  max_response_bytes : Nat
  /-- `str` of a value that is not a string. -/
  str : Json → String
  /-- `json.loads`; `none` is a `JSONDecodeError`. -/
  loads : String → Option Json
  sha256 : String → String
  /-- `uuid5(NAMESPACE_URL, name)`. -/
  uuid5 : String → String
  /-- How deep `_unwrap` may nest before Python raises `RecursionError`. -/
  recursion_limit : Nat

/-- The first argument of `submit`. -/
inductive Tool
  | none
  | name (tool : String)
  | envelope (members : Members)

/-- The arguments of `submit`. -/
structure SubmitRequest where
  tool : Tool := .none
  arguments : Option Json := none
  query : Option String := none
  request : Option Members := none
  request_id : Option String := none
  authenticated_subject : Option String := none
  idempotency_key : Option String := none
  action_digest_value : Option String := none
  metadata : Members := []
  /-- Is a cancellation token passed? -/
  cancellable : Bool := false

/-- What `_prepare_submit` makes of a request, apart from the tool and its arguments. -/
structure Envelope where
  request_id : String
  authenticated_subject : String
  idempotency_key : String
  action_digest : String
  tool : String
  deployment_scope_id : String
  hunt_id : String
  execution_id : Option String
  query_id : Option String
  approval_id : String
  execution_config_snapshot_id : String
  splunk_sid : Option String
  deriving DecidableEq

/-- A text that is not empty. -/
def nonEmpty (s : String) : Option String := if s = "" then none else some s

/-- `value` unless it is falsy. -/
def orNone (value : Option Json) : Option Json := value.filter truthy

/-- `value` unless it is `None`. -/
def given (value : Option Json) : Option Json :=
  value.filter fun value => match value with
    | .null => false
    | _ => true

/-- `{**a, **b}`. -/
def merge (a b : Members) : Members := b.foldl (fun ms m => ModelOutput.set ms m.1 m.2) a

/-- The members `_extract_envelope` leaves out of the arguments. -/
def envelopeKeys : List String :=
  ["request_id", "authenticated_subject", "worker_id", "idempotency_key", "action_digest",
    "deployment_scope_id", "hunt_id", "execution_id", "query_id", "approval_id",
    "execution_config_snapshot_id", "config_snapshot_id"]

/-- `envelope.pop(key, None) or envelope.pop(other, None)`. -/
def popEither (ms : Members) (key other : String) : Option Json × Members :=
  let rest := ms.filter (·.1 ≠ key)
  match orNone (get ms key) with
  | some value => (some value, rest)
  | none => (get rest other, rest.filter (·.1 ≠ other))

def invalid (message : String) : McpFault := .adapter_error .validation_failure message "submit"

namespace MCPConnector

variable (c : MCPConnector)

/-- `str(value)`. -/
def text : Json → String
  | .string s => s
  | value => c.str value

/-- `_extract_envelope`. -/
def extract_envelope (tool : Tool) (arguments : Option Json) (query : Option String) :
    Except McpFault (String × Members × Members) := do
  let (tool, arguments, metadata) : Option Json × Option Json × Members := match tool with
    | .none => (none, arguments, [])
    | .name tool => (some (.string tool), arguments, [])
    | .envelope members =>
        let (tool, members) := popEither members "tool" "operation"
        let (params, members) := popEither members "arguments" "params"
        let named : Json := .object (members.filter (·.1 ∉ envelopeKeys))
        (tool, some ((given arguments <|> given params).getD named), members)
  let tool := match tool with
    | some (.string name) => if (strip name.toList).isEmpty then "search_splunk" else name
    | _ => "search_splunk"
  let tool := String.ofList (strip tool.toList)
  match given arguments with
  | none => .ok (tool, (query.map fun q => [("query", .string q)]).getD [], metadata)
  | some (.object arguments) => .ok (tool, arguments, metadata)
  | some _ => .error (invalid "MCP arguments must be an object")

/-- The digest of the action, given or computed. -/
def digest_of (tool : String) (arguments metadata : Members) (explicit : Option Json) :
    Except McpFault String :=
  match explicit with
  | some value =>
      let digest := c.text value
      if digest.length = 64 ∧ digest.toList.all fun d => isAsciiDigit d || ('a' ≤ d && d ≤ 'f') then
        .ok digest
      else .error (invalid "action digest must be lowercase SHA-256 hex")
  | none =>
      let field := fun name => (name, (get metadata name).getD .null)
      let snapshot := orNone (get metadata "execution_config_snapshot_id") <|> get metadata "config_snapshot_id"
      let action : Json := .object ([("tool", .string tool), ("arguments", .object arguments)] ++
        ["deployment_scope_id", "hunt_id", "execution_id", "query_id", "approval_id"].map field ++
        [("execution_config_snapshot_id", snapshot.getD .null)])
      match action.canonical with
      | some encoded => .ok (c.sha256 (String.ofList encoded))
      | none => .error (invalid "MCP arguments must be JSON-serializable")

/-- `deterministic_request_id`. -/
def deterministic_request_id (subject key digest : String) : String :=
  c.uuid5 ("mcp:" ++ subject ++ ":" ++ key ++ ":" ++ digest)

/-- `deterministic_job_id`. -/
def deterministic_job_id (request_id : String) : String := c.sha256 ("mcp:sid:" ++ request_id)

/-- `_prepare_submit`. -/
def prepare_submit (tool : Tool) (query : Option String) (request : SubmitRequest) :
    Except McpFault (String × Members × Envelope) := do
  let (tool, arguments, envelope) ← extract_envelope tool request.arguments query
  let metadata := merge envelope request.metadata
  let named := fun name => (orNone (get metadata name)).map c.text
  let subject := ((request.authenticated_subject.bind nonEmpty) <|> named "authenticated_subject" <|>
    (c.service_subject.bind nonEmpty)).getD "mcp-client"
  let explicit := (request.action_digest_value.bind nonEmpty).map Json.string <|> get metadata "action_digest"
  let digest ← c.digest_of tool arguments metadata (given explicit)
  let key := ((request.idempotency_key.bind nonEmpty) <|> named "idempotency_key").getD ("mcp-" ++ digest)
  let request_id := ((request.request_id.bind nonEmpty) <|> named "request_id").getD
    (c.deterministic_request_id subject key digest)
  if request_id.length > 128 ∨ request_id = "" then
    .error (invalid "request_id must contain 1 to 128 characters")
  .ok (tool, arguments, {
    request_id, tool
    authenticated_subject := subject
    idempotency_key := key
    action_digest := digest
    deployment_scope_id := (named "deployment_scope_id").getD ""
    hunt_id := (named "hunt_id").getD ""
    execution_id := (get metadata "execution_id").map c.text
    query_id := (get metadata "query_id").map c.text
    approval_id := (named "approval_id").getD ""
    execution_config_snapshot_id := (named "execution_config_snapshot_id" <|> named "config_snapshot_id").getD ""
    splunk_sid := (get metadata "splunk_sid").map c.text })

/-! ### Responses -/

/-- `_decode_text`. -/
def decode_text : Json → Json
  | .string s => (c.loads s).getD (.string s)
  | value => value

/-- `_unwrap`, for values nested at most `fuel` deep. -/
def unwrapWithin : Nat → Json → Except McpFault Json
  | 0, _ => .error .recursion_error
  | fuel + 1, value =>
      match c.decode_text value with
      | .object ms =>
          if (get ms "error").isSome then .error (.adapter_error .unknown "MCP tool call failed" "transport")
          else if ms.all (·.1 = "result") ∧ ms ≠ [] then unwrapWithin fuel ((get ms "result").getD .null)
          else match get ms "content" with
            | some (.array items) =>
                match items.filterMap fun item => match item with
                  | .object ms => get ms "text"
                  | _ => none with
                | [] => .ok (.object ms)
                | [text] => unwrapWithin fuel text
                | texts => (texts.mapM (unwrapWithin fuel)).map .array
            | _ => .ok (.object ms)
      | .array items => (items.mapM (unwrapWithin fuel)).map .array
      | value => .ok value

def unwrap (value : Json) : Except McpFault Json := c.unwrapWithin c.recursion_limit value

/-- The first of the members that is a text which is not blank, stripped. -/
def firstText (ms : Members) (names : List String) : Option String :=
  names.findSome? fun name => match get ms name with
    | some (.string s) => nonEmpty (String.ofList (strip s.toList))
    | _ => none

/-- `_first_job_id`, for values nested at most `fuel` deep. -/
def firstJobIdWithin : Nat → Json → Except McpFault (Option String)
  | 0, _ => .error .recursion_error
  | fuel + 1, value => do
      match ← c.unwrap value with
      | .object ms =>
          match firstText ms ["job_id", "splunk_sid", "sid", "name", "id"] with
          | some job => pure (some job)
          | none => ["data", "result", "job", "metadata"].foldlM (fun found name => do
              match found, get ms name with
              | none, some inner => firstJobIdWithin fuel inner
              | found, _ => pure found) none
      | _ => pure none

def first_job_id (value : Json) : Except McpFault (Option String) := c.firstJobIdWithin c.recursion_limit value

/-- `_safe_status`. -/
def safe_status (value : Json) : Except McpFault (Option String) := do
  match ← c.unwrap value with
  | .object ms =>
      pure ((firstText ms ["status", "state", "job_status"]).map fun state => String.ofList (state.toList.take 32))
  | _ => pure none

/-- `_bounded_json`. -/
def bounded_json (value : Json) : Except McpFault Json :=
  match value.canonicalSize with
  | none => .error (.adapter_error .unknown "MCP returned a non-JSON response" "transport")
  | some size =>
      if size > c.max_response_bytes then
        .error (.adapter_error .validation_failure "MCP response exceeds the configured byte limit" "transport")
      else .ok value

end MCPConnector

/-! ### The request ledger -/

/-- A row of `mcp_tool_requests`. -/
structure RequestRow extends Envelope where
  status : String
  deterministic_sid : String
  attempt_count : Nat := 1
  retry_count : Nat := 0
  error_code : Option FailureCategory := none
  created_at_utc : Instant
  updated_at_utc : Instant
  submitted_at_utc : Option Instant := none
  completed_at_utc : Option Instant := none
  deriving DecidableEq

/-- The submission a row, an envelope or a call is of. -/
def Envelope.key (e : Envelope) : String × String := (e.authenticated_subject, e.idempotency_key)

/-- `_TERMINAL_STATES`. -/
def TERMINAL_STATES : List String :=
  ["cancelled", "canceled", "completed", "failed", "succeeded", "success", "stopped", "terminal"]

/-- What the connector writes to a row, by the step that writes it. -/
inductive Outcome
  | submitted (provider_job : String)
  | refused (category : FailureCategory)
  | reconciled (found_job : String)
  | polled (state : Option String)
  | cancelled

/-- The categories after which the outcome of a submission is unknown. -/
def outcomeUnknown : List FailureCategory :=
  [.temporary_network, .rate_limited, .provider_server_error, .hard_timeout]

/-- The `status` an outcome writes; a poll that names no state writes none. -/
def Outcome.status : Outcome → Option String
  | .submitted _ | .reconciled _ => some "submitted"
  | .refused category => some (if category ∈ outcomeUnknown then "unknown" else "failed")
  | .polled state => state
  | .cancelled => some "cancelled"

/-- The row with an outcome written at `now`. -/
def Outcome.write (outcome : Outcome) (now : Instant) (row : RequestRow) : RequestRow :=
  let row := { row with status := outcome.status.getD row.status, updated_at_utc := now }
  match outcome with
  | .submitted job => { row with splunk_sid := some job, submitted_at_utc := some now, error_code := none }
  | .refused category => { row with error_code := some category }
  | .reconciled job => { row with splunk_sid := some job, submitted_at_utc := some now }
  | .polled state =>
      if state.any fun state => String.ofList (lower state.toList) ∈ TERMINAL_STATES then
        { row with completed_at_utc := some now }
      else row
  | .cancelled => { row with completed_at_utc := some now }

/-- The rows of the ledger. -/
abbrev Ledger := List RequestRow

/-- The row of a request. -/
def Ledger.entry (s : Ledger) (request_id : String) : Option RequestRow := s.find? (·.request_id = request_id)

/-- The row of a subject and an idempotency key. -/
def Ledger.replay (s : Ledger) (key : String × String) : Option RequestRow := s.find? (·.key = key)

/-- The row of a job. -/
def Ledger.job (s : Ledger) (job_id : String) : Option RequestRow :=
  s.find? fun row => row.splunk_sid = some job_id ∨ row.deterministic_sid = job_id ∨ row.request_id = job_id

/-- The inserts and updates of `_write`. -/
inductive Access
  | insert (row : RequestRow)
  | update (request_id : String) (outcome : Outcome) (now : Instant)

/-- The effect of an access; `none` is a violated primary key or unique constraint. -/
def Access.effect : Access → Ledger → Option Ledger
  | .insert row, s =>
      if (s.entry row.request_id).isSome ∨ (s.replay row.key).isSome then none else some (s ++ [row])
  | .update request_id outcome now, s =>
      some (s.map fun row => if row.request_id = request_id then outcome.write now row else row)

/-- The operations of the transport. -/
inductive Operation
  | submit | reconcile | status | cancel
  deriving DecidableEq

/-- The name an operation is reported under. -/
def Operation.name : Operation → String
  | .submit => "submit"
  | .reconcile => "reconcile"
  | .status => "status"
  | .cancel => "cancel"

/-- A call of the transport. The submission it is made for is not passed on. -/
structure TransportCall where
  operation : Operation
  tool : String
  arguments : Members
  request_id : Option String
  submission : Option Envelope

/-- What the transport's callback raises. -/
inductive Raised
  | adapter (category : FailureCategory) (message operation : String)
  | ssl | timeout | os | other

/-- How a ledger access fails: the table cannot be read or a statement fails, which is reported, or the
connection fails, which is let through. -/
inductive LedgerFault
  | table | statement | connection
  deriving DecidableEq

/-- What the connector asks. A call of the transport is invoked, and later it responds. -/
inductive Ask
  | now
  | is_cancelled
  | ledger_fails
  | commit_lost
  | invoke (call : TransportCall)
  | respond

/-- The type of each answer. -/
def Ask.Answer : Ask → Type
  | .now => Instant
  | .is_cancelled | .commit_lost => Bool
  | .ledger_fails => Option LedgerFault
  | .invoke _ => Unit
  | .respond => Except Raised Json

/-- The questions and accesses of the connector. -/
def ledgerSignature : Signature Ledger where
  Question := Ask
  Answer := Ask.Answer
  Transaction := Access
  effect := Access.effect

abbrev Event := Store.Event ledgerSignature
abbrev History := Store.History ledgerSignature

/-- A procedure of the connector. -/
abbrev Op (α : Type) := Proc ledgerSignature Unit McpFault α

/-- A running call of the connector. -/
abbrev Client := Program ledgerSignature (Except McpFault Unit × Unit)

/-! ### The operations -/

def now : Op Instant := Proc.ask (S := ledgerSignature) .now

/-- Ask whether something is the case, and raise `e` if it is. -/
def raiseIf (question : Op Bool) (e : McpFault) : Op Unit := do
  if ← question then Proc.throw e else pure ()

/-- Whether the next ledger access fails, before it has an effect. -/
def ledger_fails : Op (Option LedgerFault) := Proc.ask (S := ledgerSignature) .ledger_fails

/-- What an access raises that fails. -/
def LedgerFault.fault (message : String) : LedgerFault → McpFault
  | .table => .adapter_error .database_failure "MCP request ledger is unavailable" "ledger"
  | .statement => .adapter_error .database_failure message "ledger"
  | .connection => .sqlalchemy_error

/-- A ledger access that raises if it fails. -/
def ledger (message : String) : Op Unit := do
  match ← ledger_fails with
  | none => pure ()
  | some fault => Proc.throw (fault.fault message)

/-- The commit of a write, which may raise although it took effect. -/
def acknowledged : Op Unit := raiseIf (Proc.ask (S := ledgerSignature) .commit_lost) .sqlalchemy_error

/-- `_write` of a new row. -/
def insert (row : RequestRow) : Op Unit := do
  ledger "MCP request ledger write failed"
  let inserted ← Proc.commit (S := ledgerSignature) (.insert row)
  if inserted.2 then acknowledged
  else Proc.throw (.adapter_error .database_failure "MCP request ledger write conflicted" "ledger")

/-- `_write` of an outcome. -/
def write (request_id : String) (outcome : Outcome) : Op Unit := do
  let at_ ← now
  ledger "MCP request ledger write failed"
  let _ ← Proc.commit (S := ledgerSignature) (.update request_id outcome at_)
  acknowledged

/-- `_load_replay`. -/
def load_replay (key : String × String) (digest : String) : Op (Option RequestRow) := do
  ledger "MCP request ledger read failed"
  let s ← Proc.read
  match s.replay key with
  | none => pure none
  | some row =>
      if row.action_digest = digest then pure (some row)
      else Proc.throw (invalid "MCP idempotency key conflicts with prior action")

/-- `_is_cancelled`, of a token that may not be there. -/
def raise_if_cancelled (operation : Operation) (cancellable : Bool) : Op Unit :=
  if cancellable then
    raiseIf (Proc.ask (S := ledgerSignature) .is_cancelled)
      (.adapter_error .cancelled "operation cancelled" operation.name)
  else pure ()

/-- What `_call_transport` raises for what the callback raised. -/
def Raised.fault (operation : Operation) : Raised → McpFault
  | .adapter category message operation => .adapter_error category message operation
  | .ssl => .adapter_error .tls_certificate_failure "MCP TLS verification failed" operation.name
  | .timeout => .adapter_error .hard_timeout "MCP operation exceeded its transport timeout" operation.name
  | .os => .adapter_error .temporary_network "MCP connection failed" operation.name
  | .other => .adapter_error .unknown "MCP operation failed" operation.name

namespace MCPConnector

variable (c : MCPConnector)

/-- `_call_transport`. -/
def call_transport (call : TransportCall) (cancellable : Bool) : Op Json := do
  raise_if_cancelled call.operation cancellable
  let _ ← Proc.ask (S := ledgerSignature) (.invoke call)
  let response ← Proc.ask (S := ledgerSignature) .respond
  match (response : Except Raised Json) with
  | .error raised => Proc.throw (raised.fault call.operation)
  | .ok result =>
      raise_if_cancelled call.operation cancellable
      Proc.ofExcept (c.bounded_json result)

/-- `_reconcile_reserved`. -/
def reconcile_reserved (envelope : Envelope) (row : RequestRow) : Op String := do
  let pending := ((row.splunk_sid.bind nonEmpty) <|> nonEmpty row.deterministic_sid).getD
    (c.deterministic_job_id row.request_id)
  let result ← c.call_transport {
    operation := .reconcile, tool := "status", request_id := some row.request_id, submission := some envelope
    arguments := [("job_id", .string pending), ("request_id", .string row.request_id)] } false
  match ← Proc.ofExcept (c.first_job_id result) with
  | none => Proc.throw (.adapter_error .unknown "MCP submit outcome is unresolved" "submit")
  | some job => do
      write row.request_id (.reconciled job)
      pure job

/-- A submission whose row is there: its job, if one is known, or what the transport says of it. -/
def resume (envelope : Envelope) (row : RequestRow) : Op String :=
  match row.splunk_sid.bind nonEmpty with
  | some job => pure job
  | none => c.reconcile_reserved envelope row

/-- The reservation: the row of a concurrent worker that won the race, or none. -/
def reserve (envelope : Envelope) : Op (Option RequestRow) := do
  let at_ ← now
  let row : RequestRow := { envelope with
    status := "reserved", deterministic_sid := c.deterministic_job_id envelope.request_id
    created_at_utc := at_, updated_at_utc := at_ }
  Proc.handle (do insert row; pure none) fun e =>
    match e with
    | .adapter_error _ _ _ => do
        match ← load_replay envelope.key envelope.action_digest with
        | none => Proc.throw e
        | some row => pure (some row)
    | e => Proc.throw e

/-- The call of a reserved submission, and the outcome it writes. -/
def dispatch (envelope : Envelope) (arguments : Members) (cancellable : Bool) : Op String := do
  let pending := c.deterministic_job_id envelope.request_id
  let arguments := merge arguments
    [("request_id", .string envelope.request_id), ("deterministic_sid", .string pending)]
  let provider_job ← Proc.handle (do
      let result ← c.call_transport {
        operation := .submit, tool := envelope.tool, arguments, request_id := some envelope.request_id
        submission := some envelope } cancellable
      let found ← Proc.ofExcept (c.first_job_id result)
      pure (found.getD pending)) fun e =>
    match e with
    | .adapter_error category _ _ => do
        write envelope.request_id (.refused category)
        Proc.throw e
    | e => Proc.throw e
  write envelope.request_id (.submitted provider_job)
  pure provider_job

/-- `submit` of a prepared request. -/
def submitPrepared (envelope : Envelope) (arguments : Members) (cancellable : Bool) : Op String := do
  match ← load_replay envelope.key envelope.action_digest with
  | some row => c.resume envelope row
  | none => do
      match ← c.reserve envelope with
      | some row => c.resume envelope row
      | none => c.dispatch envelope arguments cancellable

/-- The tool and the query of a submission: a single argument that reads as a query is one. -/
def toolAndQuery (request : SubmitRequest) (tool : Tool) : Tool × Option String :=
  match tool, request.arguments, request.query with
  | .name name, none, none =>
      let stripped := strip name.toList
      if stripped.head? = some '|' ∨ ' ' ∈ stripped then (.name c.submit_tool, some name) else (tool, none)
  | .none, _, query => (.name c.submit_tool, query)
  | tool, _, query => (tool, query)

/-- The envelope of a submission is given as the tool or as the request. -/
def toolOf (request : SubmitRequest) : Except McpFault Tool :=
  match request.request, request.tool with
  | none, tool => .ok tool
  | some members, .none => .ok (.envelope members)
  | some _, _ => .error (invalid "provide either request or tool, not both")

/-- `submit`. -/
def submit (request : SubmitRequest) : Op String := do
  let tool ← Proc.ofExcept (toolOf request)
  let (tool, query) := c.toolAndQuery request tool
  let (_, arguments, envelope) ← Proc.ofExcept (c.prepare_submit tool query request)
  c.submitPrepared envelope arguments request.cancellable

/-- `_resolve_job`: the provider's job, and the row, if the ledger has one. -/
def resolve_job (job_id : String) : Op (String × Option RequestRow) := do
  let job := String.ofList (strip job_id.toList)
  if job = "" then Proc.throw (.adapter_error .validation_failure "job_id must be non-empty" "job")
  else do
    match ← ledger_fails with
    | some .table => pure (job, none)
    | some fault => Proc.throw (fault.fault "MCP request ledger read failed")
    | none => do
        let s ← Proc.read
        match s.job job with
        | none => pure (job, none)
        | some row => pure ((row.splunk_sid.bind nonEmpty).getD row.deterministic_sid, some row)

/-- `status`. -/
def status (job_id : String) (cancellable : Bool) : Op Json := do
  let (provider_job, row) ← resolve_job job_id
  let response ← c.call_transport {
    operation := .status, tool := "status", arguments := [("job_id", .string provider_job)]
    request_id := row.map (·.request_id), submission := none } cancellable
  let result ← Proc.ofExcept (c.unwrap response)
  let result : Json := match result with
    | .object ms => .object ms
    | value => .object [("status", .string (c.text value))]
  match row with
  | none => pure result
  | some row => do
      let state ← Proc.ofExcept (c.safe_status result)
      write row.request_id (.polled state)
      pure result

/-- `cancel`. -/
def cancel (job_id : String) : Op Bool := do
  let (provider_job, row) ← resolve_job job_id
  let response ← c.call_transport {
    operation := .cancel, tool := "cancel", arguments := [("job_id", .string provider_job)]
    request_id := row.map (·.request_id), submission := none } false
  let result ← Proc.ofExcept (c.unwrap response)
  let confirmed : Bool := match result with
    | .object ms => ((["cancelled", "canceled", "success", "ok"].findSome? (get ms)).map truthy).getD true
    | _ => true
  match row, confirmed with
  | some row, true => do
      write row.request_id .cancelled
      pure true
  | _, confirmed => pure confirmed

/-- A call, without what it returns. -/
def call {α : Type} (p : Op α) : Client := (p >>= fun _ => pure () : Op Unit) ()

/-- The calls of the connectors on one ledger. -/
inductive Calls : Client → Prop
  | submit (c : MCPConnector) (request : SubmitRequest) : Calls (call (c.submit request))
  | status (c : MCPConnector) (job_id : String) (cancellable : Bool) : Calls (call (c.status job_id cancellable))
  | cancel (c : MCPConnector) (job_id : String) : Calls (call (c.cancel job_id))

end MCPConnector

end Mcp.Connector

end ThreatHunting
