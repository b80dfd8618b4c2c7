import ThreatHunting.Services.Documents

/-!
# ThreatHunting.Services.Checkpoint

The changes an execution makes to its results document: recording that a query was
submitted, stopped or completed, and planning further queries. They are pure functions
of the document; `services/workflow.py` writes the document they return in one update.
-/

namespace ThreatHunting

open Spl (QueryProposal)

namespace LedgerEntry

/-- A planned entry. -/
def plan (query_id : Uuid) (proposal : QueryProposal) (phase : QueryPhase) : LedgerEntry where
  query_id
  proposal
  phase
  status := .planned
  splunk_job_id := none
  submitted_at_utc := none
  completed_at_utc := none
  result := none

end LedgerEntry

/-- What a completed search's result amounts to. -/
def QueryExecution.summary (execution : QueryExecution) : ResultSummary where
  result_count := execution.rows.length
  result_bytes := execution.result_bytes
  truncated := execution.truncated
  available_result_count := execution.available_result_count
  retrieval_stop_reason := execution.retrieval_stop_reason
  result_pages := execution.result_pages

/-- The record `queries` keeps of a completed search. -/
def QueryExecution.record (execution : QueryExecution) (proposal : QueryProposal) : QueryRecord where
  query_id := execution.query_id
  question_id := proposal.question_id
  splunk_job_id := execution.splunk_job_id
  purpose := proposal.purpose
  spl := execution.normalized_spl
  earliest_utc := proposal.earliest_utc
  latest_utc := proposal.latest_utc
  result := execution.summary
  result_mode := proposal.result_mode

/-- Change the first entry that satisfies `p`. -/
def updateFirst (p : LedgerEntry → Bool) (f : LedgerEntry → LedgerEntry) :
    List LedgerEntry → List LedgerEntry
  | [] => []
  | e :: es => if p e then f e :: es else e :: updateFirst p f es

namespace Results

/-- The ledger, empty before the first checkpoint. -/
def ledger (r : Results) : List LedgerEntry := r.query_ledger.getD []

/-- The persisted counters. -/
def counters (r : Results) : BudgetCounters := r.usage.getD {}

/-- Record the job a planned query was submitted as. -/
def record_submitted (query_id : Uuid) (sid : String) (at_ : Instant) (usage : BudgetCounters)
    (r : Results) : Except Fault Results :=
  match r.ledger.find? (·.query_id = query_id) with
  | none => .error (.conflict "submitted query is missing from the checkpoint")
  | some entry =>
      if entry.status ≠ .planned then
        .error (.conflict "query checkpoint changed before submission was recorded")
      else .ok { r with
        query_ledger := some (updateFirst (·.query_id = query_id) (fun e => { e with
          splunk_job_id := some sid, status := .submitted, submitted_at_utc := some at_ }) r.ledger)
        usage := some usage }

/-- Record that a query was stopped without a result. -/
def record_stopped (query_id : Uuid) (status : QueryStatus) (at_ : Instant) (usage : BudgetCounters)
    (r : Results) : Results :=
  { r with
    query_ledger := some (r.ledger.map fun e =>
      if e.query_id = query_id then { e with status, completed_at_utc := some at_ } else e)
    usage := some usage }

/-- Record a completed search, its rows as evidence, and the counters that include it. -/
def record_completed (execution : QueryExecution) (proposal : QueryProposal) (evidence : List Evidence)
    (at_ : Instant) (usage : BudgetCounters) (r : Results) : Except Fault Results :=
  match r.ledger.find? (·.query_id = execution.query_id) with
  | none => .error (.conflict "completed query is missing from the checkpoint")
  | some _ => .ok { r with
      query_ledger := some (updateFirst (·.query_id = execution.query_id) (fun e => { e with
        splunk_job_id := some execution.splunk_job_id, status := .completed
        completed_at_utc := some at_, result := some execution.summary }) r.ledger)
      queries := r.queries.filter (·.query_id ≠ execution.query_id) ++ [execution.record proposal]
      evidence := r.evidence.filter (·.query_id ≠ execution.query_id) ++ evidence
      usage := some usage }

/-- Plan further queries. -/
def plan_queries (entries : List LedgerEntry) (r : Results) : Results :=
  { r with query_ledger := some (r.ledger ++ entries) }

end Results

end ThreatHunting
