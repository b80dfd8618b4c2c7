import ThreatHunting.Services.Hunts

/-!
# ThreatHunting.Services.Orchestration

The bounded model and Splunk operations of `services/orchestration.py`:
`StrictModelRunner`, which counts every model call before it is made and permits one
repair, and `ProductionHuntExecutor.execute_query`, which submits or resumes one search
and retrieves its result page by page within the row and byte limits.
-/

namespace ThreatHunting

open Store Op
open Spl (QueryProposal QueryValidationResult)

/-! ### The model runner -/

/-- `StrictModelRunner`. Its counters are the memory of the procedure it runs in. -/
structure StrictModelRunner where
  limits : BudgetValues
  deadline : Option Instant
  is_cancelled : Op Bool

/-- `validate_query` of the proposal contract. -/
def proposalWellFormed (p : QueryProposal) : Bool :=
  p.earliest_utc < p.latest_utc && 0 < p.max_results && p.max_results ≤ Spl.queryResultLimits p.result_mode

/-- `validate_decision` of the follow-up contract. -/
def decisionWellFormed (d : FollowUpDecision) : Bool :=
  (match d.proposal, d.skip_reason with
    | some p, none => proposalWellFormed p && p.question_id = d.question_id.toList
    | none, some reason => strip reason.toList ≠ []
    | _, _ => false)

/-- The checks of a contract on a decoded value. -/
def Contract.accepts : (contract : Contract) → contract.Value → Bool
  | .hunt_plan sources, (plan : HuntPlan) =>
      match plan.model_validate with
      | .ok header => validate_intelligence_refs header.intelligence_refs sources
      | .error _ => false
  | .query_proposals, (ps : List QueryProposal) => ps.all proposalWellFormed
  | .query_assessments, (_ : List QueryAssessment) => true
  | .follow_up_decisions question_ids, (ds : List FollowUpDecision) =>
      ds.all decisionWellFormed && ds.length = question_ids.length &&
        sameSet (ds.map (·.question_id)) question_ids
  | .question_synthesis _ _, (_ : Document) => true

/-- `_structured`: the decoded value, if the contract accepts it. -/
def Contract.structured (contract : Contract) (decoded : Except String contract.Value) :
    Except String contract.Value :=
  match decoded with
  | .error reason => .error reason
  | .ok value => if contract.accepts value then .ok value else .error contract.name

namespace StrictModelRunner

variable (runner : StrictModelRunner)

/-- `_request_fits`. -/
def request_fits (counters : BudgetCounters) (request : ModelRequest) : Bool :=
  request.characters ≤ runner.limits.max_context_characters &&
    request.estimated_tokens + counters.model_input_tokens ≤ runner.limits.max_model_input_tokens

/-- `_output_allowance`: raises when the output budget is spent. -/
def output_allowance : Op Unit := do
  let counters ← Proc.get
  raiseIf (runner.limits.max_model_output_tokens ≤ counters.model_output_tokens)
    (.adapter_error .budget_exhausted "model output budget exhausted" "model.complete")

/-- One adapter call. -/
def complete (contract : Contract) (repair : Bool) : Op (ModelResponse contract) := do
  ofExcept (← Proc.ask (S := signature) (.complete contract repair))

/-- The message of a response that was cut off. -/
def lengthMessage {contract : Contract} (response : ModelResponse contract) : String :=
  "model response reached its token limit for " ++ contract.name ++
    " (input_tokens=" ++ toString response.input_tokens ++
    ", output_tokens=" ++ toString response.output_tokens ++
    ", visible_characters=" ++ toString response.text_length ++
    "; reasoning and answer share the budget); review response scope and reasoning effort before retrying"

/-- `_call` starts only before the deadline. -/
def check_deadline : Op Unit :=
  match runner.deadline with
  | none => pure ()
  | some deadline => do
      let now ← now
      raiseIf (deadline - now ≤ 0)
        (.adapter_error .hard_timeout "hunt hard deadline exceeded" "model.complete")

/-- A call that is rejected after the response counts as failed. -/
def reject {α : Type} (e : Fault) : Op α := do
  Proc.modify (·.record_failed_model_call)
  raise e

/-- A response that arrives after the deadline is rejected. -/
def check_arrival : Op Unit :=
  match runner.deadline with
  | none => pure ()
  | some deadline => do
      let now ← now
      if deadline ≤ now then
        reject (.adapter_error .hard_timeout "model response arrived after execution deadline"
          "model.complete")
      else pure ()

/-- A refusal or a response that was cut off is rejected. -/
def check_finish {contract : Contract} (response : ModelResponse contract) : Op Unit :=
  match response.finish_reason with
  | .complete => pure ()
  | .refusal =>
      reject (.adapter_error .permission_denied "model refused the structured response" "model.complete")
  | .length => reject (.adapter_error .budget_exhausted (lengthMessage response) "model.complete")

/-- `_call`: the decoded value, or why the response violates the contract. -/
def call (contract : Contract) (request : ModelRequest) (repair : Bool) :
    Op (Except String contract.Value) := do
  let cancelled ← runner.is_cancelled
  raiseIf (cancelled = true) (.adapter_error .cancelled "operation cancelled" "model.complete")
  runner.check_deadline
  let counters ← Proc.get
  raiseIf (counters.can_start_model_call runner.limits = false)
    (.adapter_error .budget_exhausted "model call budget exhausted" "model.complete")
  raiseIf (runner.request_fits counters request = false)
    (.adapter_error .budget_exhausted
      "complete model request exceeds context or remaining input budget" "model.complete")
  -- counted before the external call, so a call that fails is counted too
  Proc.modify (·.record_model_call repair)
  Proc.modify (·.append_check {
    contract := contract.name, repair, context_characters := request.characters
    estimated_input_tokens := request.estimated_tokens })
  let response ← (complete contract repair).handle reject
  Proc.modify (·.update_check fun check =>
    { check with input_tokens := some response.input_tokens, output_tokens := some response.output_tokens })
  Proc.modify (·.record_tokens response.input_tokens response.output_tokens)
  runner.check_arrival
  check_finish response
  let counters ← Proc.get
  raiseIf (runner.limits.max_model_input_tokens < counters.model_input_tokens ∨
      runner.limits.max_model_output_tokens < counters.model_output_tokens)
    (.adapter_error .budget_exhausted "model token budget exhausted" "model.complete")
  pure (contract.structured response.decoded)

/-- Build a request for the contract. -/
def prompt (contract : Contract) : Op ModelRequest := do
  let request ← ofExcept (← Proc.ask (S := signature) (.prompt contract))
  runner.output_allowance
  pure request

/-- Whether the last response met its contract. -/
def record_validity (valid : Bool) : Op Unit :=
  Proc.modify (·.update_check fun check => { check with contract_valid := some valid })

/-- `run`: one call, and one repair if its response violates the contract. -/
def run (contract : Contract) : Op contract.Value := do
  let request ← runner.prompt contract
  let first ← runner.call contract request false
  match first with
  | .ok value => do
      record_validity true
      pure value
  | .error _ => do
      record_validity false
      let request ← runner.prompt contract
      let second ← runner.call contract request true
      match second with
      | .ok value => do
          record_validity true
          pure value
      | .error reason => do
          record_validity false
          raise (.model_contract_error contract.name reason)

/-- `repair_once`: one repair call after a deterministic rejection. -/
def repair_once (contract : Contract) : Op contract.Value := do
  let request ← runner.prompt contract
  let repaired ← runner.call contract request true
  match repaired with
  | .ok value => do
      record_validity true
      pure value
  | .error reason => do
      record_validity false
      raise (.model_contract_error contract.name reason)

end StrictModelRunner

/-! ### The query executor -/

namespace SplunkStatus

/-- `str(value).lower()` of a status value; a container's text begins with its bracket. -/
def lowerText : Json → Text
  | .null => "none".toList
  | .bool b => if b then "true".toList else "false".toList
  | .int n => (toString n).toList
  | .float repr => lower repr.toList
  | .nonfinite => "nan".toList
  | .string s => lower s.toList
  | .array _ => ['[']
  | .object _ => ['{']

/-- `status.get(key)`. -/
def get (status : Row) (key : String) : Option Json := (status.find? (·.1 = key)).map (·.2)

/-- Is a done flag set? -/
def doneFlag (value : Json) : Bool :=
  lowerText value ∈ ["1".toList, "true".toList, "yes".toList, "done".toList]

/-- `_is_terminal`: whether the search has ended, and whether it failed. -/
def is_terminal (status : Row) : Bool × Bool :=
  if ["isDone", "done", "is_done"].any fun key => (get status key).any doneFlag then (true, false)
  else
    let state := lowerText
      ((get status "dispatchState" <|> get status "state" <|> get status "status").getD (.string ""))
    if state ∈ ["done", "completed", "complete", "finished", "success", "successful"].map (·.toList) then
      (true, false)
    else if state ∈ ["failed", "failure", "error", "cancelled", "canceled"].map (·.toList) then
      (true, true)
    else (false, false)

/-- The value of decimal digits. -/
def digitsValue (cs : List Char) : Nat := cs.foldl (fun n c => 10 * n + (c.toNat - '0'.toNat)) 0

/-- The reported `resultCount`, if it is a string or integer of ASCII digits. -/
def reportedCount (status : Row) : Option Nat :=
  match get status "resultCount" with
  | some (.int n) => if 0 ≤ n then some n.toNat else none
  | some (.string s) =>
      if s.toList ≠ [] ∧ s.toList.all isAsciiDigit then some (digitsValue s.toList) else none
  | _ => none

end SplunkStatus

/-- `ProductionHuntExecutor`. Its counters are the memory of the procedure it runs in;
`validate` is its policy, with the open question IDs fixed. -/
structure ProductionHuntExecutor where
  limits : BudgetLimits
  validate : QueryProposal → Except Fault QueryValidationResult
  is_cancelled : Op Bool
  deadline : Option Instant
  on_submitted : Uuid → String → QueryProposal → Op Unit
  on_rejected : QueryProposal → Uuid → QueryValidationResult → Op Unit

/-- The limits one query runs under, and why retrieval stops at each of them. -/
structure QueryLimits where
  row_limit : Nat
  byte_limit : Nat
  row_stop_reason : String
  byte_stop_reason : String
  deriving DecidableEq, Repr

/-- What has been retrieved so far. -/
structure Retrieval where
  rows : List Row
  result_bytes : Nat
  result_pages : Nat
  stop_reason : Option String

/-- Retrieval starts from the two brackets of an empty array. -/
def Retrieval.empty : Retrieval := ⟨[], 2, 0, none⟩

/-- The rows of one page, taken until a limit: a row that would pass the byte limit stops
retrieval. -/
def retainRows (limits : QueryLimits) : List Row → Retrieval → Except Fault Retrieval
  | [], r => .ok r
  | row :: page, r =>
      if limits.row_limit ≤ r.rows.length then .ok r
      else
        match (Json.object row).canonical with
        | none => .error (.value_error "Out of range float values are not JSON compliant")
        | some text =>
            let row_bytes := Json.utf8Length text + (if r.rows.isEmpty then 0 else 1)
            if limits.byte_limit < r.result_bytes + row_bytes then
              .ok { r with stop_reason := some limits.byte_stop_reason }
            else
              retainRows limits page
                { r with rows := r.rows ++ [row], result_bytes := r.result_bytes + row_bytes }

namespace ProductionHuntExecutor

variable (executor : ProductionHuntExecutor)

/-- The limits of a query, from the proposal, the policy and what the hunt has left. -/
def queryLimits (proposal : QueryProposal) (v : QueryValidationResult) (counters : BudgetCounters) :
    QueryLimits :=
  let query_row_limit :=
    min (min proposal.max_results v.enforced_limits.max_results) executor.limits.max_cached_rows_per_query
  let hunt_rows_remaining := executor.limits.max_cached_rows_per_hunt - counters.cached_rows
  let query_byte_limit := min v.enforced_limits.max_bytes executor.limits.max_cached_bytes_per_query
  let hunt_bytes_remaining := executor.limits.max_cached_bytes_per_hunt - counters.cached_bytes
  { row_limit := min query_row_limit hunt_rows_remaining
    byte_limit := min query_byte_limit hunt_bytes_remaining
    row_stop_reason := if hunt_rows_remaining < query_row_limit then "hunt_row_limit" else "query_row_limit"
    byte_stop_reason :=
      if hunt_bytes_remaining < query_byte_limit then "hunt_byte_limit" else "query_byte_limit" }

/-- `_cancel_after_sid`. -/
def cancel_after_sid (job_id : String) : Op Unit := do
  let _ ← Proc.ask (S := signature) (.cancel_search job_id)
  pure ()

/-- The `except` clause of `execute_query`. -/
def abort {α : Type} (job_id : Option String) (e : Fault) : Op α := do
  match job_id with
  | some job_id => cancel_after_sid job_id
  | none => pure ()
  Proc.modify (·.record_failed_splunk_query)
  raise e

/-- The status poll: one status request per turn, until the search has ended. A search
that never ends within `fuel` turns is one whose executor is not heard of again. -/
def awaitDone (job_id : String) (deadline : Instant) : Nat → Op Row
  | 0 => Proc.halt
  | fuel + 1 => do
      let cancelled ← executor.is_cancelled
      raiseIf (cancelled = true) (.adapter_error .cancelled "operation cancelled" "splunk.status")
      let now ← now
      raiseIf (deadline - now ≤ 0)
        (.adapter_error .hard_timeout "Splunk query exceeded execution deadline" "splunk.status")
      let status ← ofExcept (← Proc.ask (S := signature) (.status job_id))
      match SplunkStatus.is_terminal status with
      | (true, true) =>
          raise (.adapter_error .provider_server_error "Splunk query failed" "splunk.status")
      | (true, false) => pure status
      | (false, _) => awaitDone job_id deadline fuel

/-- One page, with the deadline checked before and after it arrives. -/
def fetchPage (job_id : String) (deadline : Instant) (page page_size max_bytes : Nat) :
    Op (List Row) := do
  let before ← now
  raiseIf (deadline ≤ before)
    (.adapter_error .hard_timeout "Splunk query exceeded execution deadline" "splunk.fetch_results")
  let _ ← now
  let rows ← ofExcept (← Proc.ask (S := signature) (.fetch_results job_id page page_size max_bytes))
  let after ← now
  raiseIf (deadline ≤ after)
    (.adapter_error .hard_timeout "Splunk results arrived after execution deadline"
      "splunk.fetch_results")
  pure rows

/-- What a failed page means for the rows already retrieved: the byte limit or the deadline
may end the result early, anything else ends the query. -/
def pageFailed (limits : QueryLimits) (r : Retrieval) (e : Fault) : Op (List Row × Retrieval) := do
  match e with
  | .adapter_error .budget_exhausted _ _ =>
      pure ([], { r with stop_reason := some limits.byte_stop_reason })
  | .adapter_error .hard_timeout _ _ =>
      if r.rows.isEmpty then raise e
      else
        Proc.modify (·.record_failed_splunk_query)
        pure ([], { r with stop_reason := some "query_timeout" })
  | _ => raise e

/-- The paging loop. Each turn that goes on has retained a row, so `row_limit` turns are
enough. -/
def fetchPages (job_id : String) (deadline : Instant) (limits : QueryLimits) (page_size : Nat)
    (available_count : Option Nat) : Nat → Retrieval → Op Retrieval
  | 0, r => pure r
  | turns + 1, r => do
      if limits.row_limit ≤ r.rows.length ∨ available_count.any (· ≤ r.rows.length) then pure r
      else
        let fetched : Op (List Row × Retrieval) := do
          let page_rows ← fetchPage job_id deadline r.result_pages page_size
            (limits.byte_limit - r.result_bytes + 2)
          pure (page_rows, r)
        let (page_rows, r) ← fetched.handle (pageFailed limits r)
        if r.stop_reason.isSome then pure r
        else
          let r ← ofExcept (retainRows limits page_rows { r with result_pages := r.result_pages + 1 })
          if r.stop_reason.isSome then pure r
          else if page_rows.length < page_size then
            if available_count.any (r.rows.length < ·) then
              pure { r with stop_reason := some "incomplete_page" }
            else pure r
          else fetchPages job_id deadline limits page_size available_count turns r

/-- The stop reason of a result that filled the row limit without being known complete. -/
def Retrieval.finish (limits : QueryLimits) (available_count : Option Nat) (r : Retrieval) : Retrieval :=
  if r.stop_reason.isNone ∧ limits.row_limit ≤ r.rows.length ∧
      available_count.all (r.rows.length < ·) then
    { r with stop_reason := some limits.row_stop_reason }
  else r

/-- The part of `execute_query` that runs once the search has a job ID. -/
def retrieve (job_id : String) (deadline : Instant) (limits : QueryLimits) (fuel : Nat) :
    Op (Option Nat × Retrieval) := do
  let final_status ← executor.awaitDone job_id deadline fuel
  let now ← now
  raiseIf (deadline ≤ now)
    (.adapter_error .hard_timeout "Splunk query exceeded execution deadline" "splunk.fetch_results")
  let available_count := SplunkStatus.reportedCount final_status
  let page_size := min 500 limits.row_limit
  let r ← fetchPages job_id deadline limits page_size available_count limits.row_limit .empty
  pure (available_count, Retrieval.finish limits available_count r)

/-- Submit the search under its persisted identifier. -/
def submit (proposal : QueryProposal) (query_id : Uuid) (v : QueryValidationResult) : Op String := do
  ofExcept (← Proc.ask (S := signature)
    (.submit query_id v.normalized_spl proposal.earliest_utc proposal.latest_utc))

/-- A new search: counted, submitted and reported to `on_submitted`. -/
def start (proposal : QueryProposal) (query_id : Uuid) (v : QueryValidationResult) (deadline : Instant) :
    Op String := do
  let now ← now
  raiseIf (deadline ≤ now)
    (.adapter_error .hard_timeout "query execution deadline exceeded" "splunk.submit")
  let counters ← Proc.get
  raiseIf (counters.can_start_query executor.limits.toBudgetValues = false)
    (.adapter_error .budget_exhausted "Splunk query budget exhausted" "splunk.submit")
  Proc.modify (·.record_splunk_query)
  let job_id ← (submit proposal query_id v).handle (abort none)
  (executor.on_submitted query_id job_id proposal).handle (abort (some job_id))
  pure job_id

/-- The deadline of a query: its own timeout, within the executor's deadline. -/
def query_deadline (submitted_at_utc : Option Instant) : Op Instant := do
  let start ← (match submitted_at_utc with
    | some submitted => pure submitted
    | none => now)
  let timeout := start + seconds executor.limits.splunk_query_timeout_seconds
  pure ((executor.deadline.map (min timeout)).getD timeout)

/-- The search's job: the recorded one, or a new one. -/
def job (proposal : QueryProposal) (query_id : Uuid) (v : QueryValidationResult) (deadline : Instant) :
    Option String → Op String
  | some job_id => pure job_id
  | none => executor.start proposal query_id v deadline

/-- `execute_query`: validate and execute one query, or resume it under the job ID it was
submitted as. -/
def execute_query (fuel : Nat) (proposal : QueryProposal) (query_id : Uuid)
    (existing_job_id : Option String) (submitted_at_utc : Option Instant) : Op QueryExecution := do
  let validation_id ← uuid4
  let v ← ofExcept (executor.validate proposal)
  if v.allowed = false then
    executor.on_rejected proposal validation_id v
    raise (.adapter_error .query_policy_rejected
      ("SPL query rejected by deterministic policy: " ++ ", ".intercalate v.reason_codes)
      "splunk.validate_query")
  else
    let counters ← Proc.get
    let limits := executor.queryLimits proposal v counters
    raiseIf (limits.row_limit ≤ 0 ∨ limits.byte_limit < 2)
      (.adapter_error .budget_exhausted "Hunt result storage budget exhausted" "splunk.fetch_results")
    let deadline ← executor.query_deadline submitted_at_utc
    let job_id ← executor.job proposal query_id v deadline existing_job_id
    let (available_count, r) ← (executor.retrieve job_id deadline limits fuel).handle (abort (some job_id))
    Proc.modify (·.record_result r.rows.length r.result_bytes)
    pure {
      query_id, splunk_job_id := job_id, normalized_spl := v.normalized_spl, rows := r.rows
      result_bytes := r.result_bytes, truncated := r.stop_reason.isSome
      available_result_count := available_count, retrieval_stop_reason := r.stop_reason
      result_pages := r.result_pages }

end ProductionHuntExecutor

end ThreatHunting
