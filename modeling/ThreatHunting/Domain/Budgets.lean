import Mathlib

/-!
# ThreatHunting.Domain.Budgets

Hunt limits and usage counters (`domain/budgets.py`). A `BudgetLimits` carries the
proof that it passed `validate_relationships`; `BudgetCounters` is plain, as the
services update it field by field, and `BudgetCounters.Valid` is what its validator
checks after each assignment.
-/

namespace ThreatHunting

/-- The fields of `BudgetLimits`, with their defaults. -/
structure BudgetValues where
  hard_hunt_seconds : Nat := 1200
  query_start_cutoff_seconds : Nat := 960
  max_inflight_query_seconds_after_cutoff : Nat := 120
  synthesis_allowance_seconds : Nat := 120
  max_agent_cycles : Nat := 8
  max_splunk_queries : Nat := 50
  max_concurrent_splunk_jobs : Nat := 2
  max_active_hunts : Nat := 1
  max_deployment_splunk_jobs : Nat := 2
  splunk_query_timeout_seconds : Nat := 120
  splunk_transport_timeout_seconds : Nat := 120
  max_model_calls : Nat := 12
  max_context_characters : Nat := 500000
  max_model_input_tokens : Nat := 500000
  max_model_output_tokens : Nat := 96000
  max_model_output_tokens_per_call : Nat := 8000
  max_model_call_timeout_seconds : Nat := 120
  max_cached_rows_per_query : Nat := 10000
  max_cached_bytes_per_query : Nat := 262144000
  max_cached_rows_per_hunt : Nat := 50000
  max_cached_bytes_per_hunt : Nat := 1073741824
  max_representative_events : Nat := 500
  max_targeted_events : Nat := 500
  max_model_repair_attempts : Nat := 2
  max_transport_retries : Nat := 1
  max_report_render_retries : Nat := 1
  deriving DecidableEq, Repr

namespace BudgetValues

/-- The fields typed `PositiveInt`. -/
def positives (v : BudgetValues) : List Nat :=
  [v.hard_hunt_seconds, v.query_start_cutoff_seconds, v.max_inflight_query_seconds_after_cutoff,
    v.synthesis_allowance_seconds, v.max_agent_cycles, v.max_splunk_queries,
    v.max_concurrent_splunk_jobs, v.max_active_hunts, v.max_deployment_splunk_jobs,
    v.splunk_query_timeout_seconds, v.splunk_transport_timeout_seconds, v.max_model_calls,
    v.max_context_characters, v.max_model_input_tokens, v.max_model_output_tokens,
    v.max_model_output_tokens_per_call, v.max_model_call_timeout_seconds,
    v.max_cached_rows_per_query, v.max_cached_bytes_per_query, v.max_cached_rows_per_hunt,
    v.max_cached_bytes_per_hunt, v.max_representative_events, v.max_targeted_events]

/-- `validate_relationships`: the first broken relationship, if any. -/
def validate_relationships (v : BudgetValues) : Option String :=
  if v.hard_hunt_seconds ≤ v.query_start_cutoff_seconds then
    some "query_start_cutoff_seconds must be below hard_hunt_seconds"
  else if v.hard_hunt_seconds < v.synthesis_allowance_seconds then
    some "synthesis_allowance_seconds cannot exceed hard_hunt_seconds"
  else if v.splunk_query_timeout_seconds < v.max_inflight_query_seconds_after_cutoff then
    some "max_inflight_query_seconds_after_cutoff cannot exceed splunk_query_timeout_seconds"
  else if v.max_model_output_tokens < v.max_model_output_tokens_per_call then
    some "per-call output limit cannot exceed total output limit"
  else if v.max_cached_rows_per_hunt < v.max_cached_rows_per_query then
    some "per-query row limit cannot exceed per-hunt row limit"
  else if v.max_cached_bytes_per_hunt < v.max_cached_bytes_per_query then
    some "per-query byte limit cannot exceed per-hunt byte limit"
  else if v.max_targeted_events < v.max_representative_events then
    some "targeted event limit cannot be below representative limit"
  else none

end BudgetValues

/-- `BudgetLimits`: values that passed validation. -/
structure BudgetLimits extends BudgetValues where
  positive : ∀ n ∈ toBudgetValues.positives, 0 < n
  related : toBudgetValues.validate_relationships = none
  deriving DecidableEq

/-- The defaults pass their own validation. -/
def BudgetLimits.default : BudgetLimits where
  toBudgetValues := {}
  positive := by decide
  related := by decide

instance : Inhabited BudgetLimits := ⟨.default⟩

theorem BudgetLimits.max_active_hunts_pos (limits : BudgetLimits) : 0 < limits.max_active_hunts :=
  limits.positive _ (by simp [BudgetValues.positives])

/-- `ModelOutputCheck`: what was observed of one model call. -/
structure ModelOutputCheck where
  contract : String
  repair : Bool
  contract_valid : Option Bool := none
  context_characters : Nat
  estimated_input_tokens : Nat
  input_tokens : Option Nat := none
  output_tokens : Option Nat := none
  deriving DecidableEq, Repr

/-- `BudgetCounters`. -/
structure BudgetCounters where
  model_calls : Nat := 0
  model_output_checks : List ModelOutputCheck := []
  failed_model_calls : Nat := 0
  model_repair_attempts : Nat := 0
  model_input_tokens : Nat := 0
  model_output_tokens : Nat := 0
  splunk_queries : Nat := 0
  failed_splunk_queries : Nat := 0
  agent_cycles : Nat := 0
  cached_rows : Nat := 0
  cached_bytes : Nat := 0
  deriving DecidableEq, Repr, Inhabited

namespace BudgetCounters

/-- `validate_counter_relationships`. -/
structure Valid (c : BudgetCounters) : Prop where
  failed_model_calls : c.failed_model_calls ≤ c.model_calls
  model_repair_attempts : c.model_repair_attempts ≤ c.model_calls
  failed_splunk_queries : c.failed_splunk_queries ≤ c.splunk_queries

/-- `record_model_call`, as the runner calls it: before the tokens are known. -/
def record_model_call (c : BudgetCounters) (repair : Bool) : BudgetCounters :=
  { c with
    model_calls := c.model_calls + 1
    model_repair_attempts := c.model_repair_attempts + repair.toNat }

/-- `model_output_checks.append`. -/
def append_check (c : BudgetCounters) (check : ModelOutputCheck) : BudgetCounters :=
  { c with model_output_checks := c.model_output_checks ++ [check] }

/-- A change of `model_output_checks[-1]`. -/
def update_check (c : BudgetCounters) (f : ModelOutputCheck → ModelOutputCheck) : BudgetCounters :=
  { c with model_output_checks := c.model_output_checks.modifyLast f }

/-- `failed_model_calls += 1`. -/
def record_failed_model_call (c : BudgetCounters) : BudgetCounters :=
  { c with failed_model_calls := c.failed_model_calls + 1 }

/-- The tokens a response reports. -/
def record_tokens (c : BudgetCounters) (input output : Nat) : BudgetCounters :=
  { c with
    model_input_tokens := c.model_input_tokens + input
    model_output_tokens := c.model_output_tokens + output }

/-- `record_splunk_query`. -/
def record_splunk_query (c : BudgetCounters) : BudgetCounters :=
  { c with splunk_queries := c.splunk_queries + 1 }

/-- The guarded `failed_splunk_queries += 1` of `execute_query`. -/
def record_failed_splunk_query (c : BudgetCounters) : BudgetCounters :=
  if c.failed_splunk_queries < c.splunk_queries then
    { c with failed_splunk_queries := c.failed_splunk_queries + 1 }
  else c

/-- `record_result`. -/
def record_result (c : BudgetCounters) (rows bytes : Nat) : BudgetCounters :=
  { c with cached_rows := c.cached_rows + rows, cached_bytes := c.cached_bytes + bytes }

/-- `record_cycle`. -/
def record_cycle (c : BudgetCounters) : BudgetCounters := { c with agent_cycles := c.agent_cycles + 1 }

/-- `can_start_model_call`. -/
def can_start_model_call (c : BudgetCounters) (limits : BudgetValues) : Bool :=
  c.model_calls < limits.max_model_calls

/-- `can_start_query`. -/
def can_start_query (c : BudgetCounters) (limits : BudgetValues) : Bool :=
  c.splunk_queries < limits.max_splunk_queries

theorem Valid.zero : Valid {} := ⟨by decide, by decide, by decide⟩

theorem Valid.record_model_call {c : BudgetCounters} (h : c.Valid) (repair : Bool) :
    (c.record_model_call repair).Valid := by
  obtain ⟨h₁, h₂, h₃⟩ := h
  have hr : repair.toNat ≤ 1 := Bool.toNat_le repair
  exact ⟨by simp only [BudgetCounters.record_model_call]; omega,
    by simp only [BudgetCounters.record_model_call]; omega, h₃⟩

theorem Valid.record_failed_splunk_query {c : BudgetCounters} (h : c.Valid) :
    c.record_failed_splunk_query.Valid := by
  unfold BudgetCounters.record_failed_splunk_query
  split
  next hlt => exact ⟨h.failed_model_calls, h.model_repair_attempts, hlt⟩
  next => exact h

@[simp] theorem record_failed_splunk_query_splunk_queries (c : BudgetCounters) :
    c.record_failed_splunk_query.splunk_queries = c.splunk_queries := by
  unfold record_failed_splunk_query; split <;> rfl
@[simp] theorem record_failed_splunk_query_cached_rows (c : BudgetCounters) :
    c.record_failed_splunk_query.cached_rows = c.cached_rows := by
  unfold record_failed_splunk_query; split <;> rfl
@[simp] theorem record_failed_splunk_query_cached_bytes (c : BudgetCounters) :
    c.record_failed_splunk_query.cached_bytes = c.cached_bytes := by
  unfold record_failed_splunk_query; split <;> rfl
@[simp] theorem record_failed_splunk_query_model_calls (c : BudgetCounters) :
    c.record_failed_splunk_query.model_calls = c.model_calls := by
  unfold record_failed_splunk_query; split <;> rfl

/-! ### Counters that only grow -/

/-- No counter of `c'` is below that of `c`. -/
structure Le (c c' : BudgetCounters) : Prop where
  model_calls : c.model_calls ≤ c'.model_calls
  failed_model_calls : c.failed_model_calls ≤ c'.failed_model_calls
  model_repair_attempts : c.model_repair_attempts ≤ c'.model_repair_attempts
  model_input_tokens : c.model_input_tokens ≤ c'.model_input_tokens
  model_output_tokens : c.model_output_tokens ≤ c'.model_output_tokens
  splunk_queries : c.splunk_queries ≤ c'.splunk_queries
  failed_splunk_queries : c.failed_splunk_queries ≤ c'.failed_splunk_queries
  agent_cycles : c.agent_cycles ≤ c'.agent_cycles
  cached_rows : c.cached_rows ≤ c'.cached_rows
  cached_bytes : c.cached_bytes ≤ c'.cached_bytes

instance : Preorder BudgetCounters where
  le := Le
  le_refl c := by constructor <;> exact le_rfl
  le_trans a b c h h' := by
    obtain ⟨h₁, h₂, h₃, h₄, h₅, h₆, h₇, h₈, h₉, h₁₀⟩ := h
    obtain ⟨h₁', h₂', h₃', h₄', h₅', h₆', h₇', h₈', h₉', h₁₀'⟩ := h'
    constructor <;> omega

variable (c : BudgetCounters)

theorem le_record_model_call (repair : Bool) : c ≤ c.record_model_call repair := by
  constructor <;> simp [BudgetCounters.record_model_call]

theorem le_append_check (check : ModelOutputCheck) : c ≤ c.append_check check := by
  constructor <;> exact le_rfl

theorem le_update_check (f : ModelOutputCheck → ModelOutputCheck) : c ≤ c.update_check f := by
  constructor <;> exact le_rfl

theorem le_record_failed_model_call : c ≤ c.record_failed_model_call := by
  constructor <;> simp [BudgetCounters.record_failed_model_call]

theorem le_record_tokens (input output : Nat) : c ≤ c.record_tokens input output := by
  constructor <;> simp [BudgetCounters.record_tokens]

theorem le_record_splunk_query : c ≤ c.record_splunk_query := by
  constructor <;> simp [BudgetCounters.record_splunk_query]

theorem le_record_failed_splunk_query : c ≤ c.record_failed_splunk_query := by
  unfold BudgetCounters.record_failed_splunk_query
  split
  · constructor <;> simp
  · exact le_refl c

theorem le_record_result (rows bytes : Nat) : c ≤ c.record_result rows bytes := by
  constructor <;> simp [BudgetCounters.record_result]

theorem le_record_cycle : c ≤ c.record_cycle := by
  constructor <;> simp [BudgetCounters.record_cycle]

end BudgetCounters

end ThreatHunting
