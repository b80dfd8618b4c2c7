import ThreatHunting.Domain.Budgets

/-!
# ThreatHunting.Services.Runtime

`budget_limits_from_settings` of `services/runtime.py`, from the hunt limits of a runtime
configuration (`config.py`) to the limits of a hunt's budget (`domain/budgets.py`). Both have a
validator of their own; a configuration that the first accepts and the second does not fails only
when a hunt starts.
-/

namespace ThreatHunting

/-! ### Configuration -/

/-- The limits of `HuntLimitSettings` that a budget is made from, with their defaults. -/
structure HuntLimitValues where
  hard_completion_minutes : Nat := 20
  agent_cycles : Nat := 8
  query_count : Nat := 50
  per_hunt_query_concurrency : Nat := 2
  search_job_timeout_seconds : Nat := 120
  splunk_transport_timeout_seconds : Nat := 30
  active_hunts_per_deployment : Nat := 1
  deployment_query_concurrency : Nat := 2
  per_query_row_limit : Nat := 10000
  per_query_byte_limit : Nat := 262144000
  per_hunt_row_limit : Nat := 50000
  per_hunt_byte_limit : Nat := 1073741824
  representative_event_limit : Nat := 500
  targeted_event_limit : Nat := 500
  model_calls : Nat := 12
  model_call_timeout_seconds : Nat := 120
  context_characters : Nat := 500000
  input_tokens : Nat := 500000
  output_tokens : Nat := 96000
  output_tokens_per_call : Nat := 8000
  deriving DecidableEq, Repr

namespace HuntLimitValues

/-- The fields typed `PositiveInt`. -/
def positives (v : HuntLimitValues) : List Nat :=
  [v.hard_completion_minutes, v.agent_cycles, v.query_count, v.per_hunt_query_concurrency,
    v.search_job_timeout_seconds, v.splunk_transport_timeout_seconds, v.active_hunts_per_deployment,
    v.deployment_query_concurrency, v.per_query_row_limit, v.per_query_byte_limit, v.per_hunt_row_limit,
    v.per_hunt_byte_limit, v.representative_event_limit, v.targeted_event_limit, v.model_calls,
    v.model_call_timeout_seconds, v.context_characters, v.input_tokens, v.output_tokens, v.output_tokens_per_call]

/-- `validate_limit_relationships`: the first broken relationship, if any. -/
def validate_limit_relationships (v : HuntLimitValues) : Option String :=
  if v.output_tokens < v.output_tokens_per_call then
    some "per-call output tokens cannot exceed the per-hunt output budget"
  else if v.deployment_query_concurrency < v.per_hunt_query_concurrency then
    some "per-hunt query concurrency cannot exceed deployment concurrency"
  else if v.per_hunt_row_limit < v.per_query_row_limit then
    some "per-query row limit cannot exceed per-hunt row limit"
  else if v.per_hunt_byte_limit < v.per_query_byte_limit then
    some "per-query byte limit cannot exceed per-hunt byte limit"
  else if v.per_query_row_limit < v.representative_event_limit then
    some "representative event limit cannot exceed per-query row limit"
  else if v.per_query_row_limit < v.targeted_event_limit then
    some "targeted event limit cannot exceed per-query row limit"
  else none

end HuntLimitValues

/-- `HuntLimitSettings`: values that passed validation. -/
structure HuntLimitSettings extends HuntLimitValues where
  positive : ∀ n ∈ toHuntLimitValues.positives, 0 < n
  related : toHuntLimitValues.validate_limit_relationships = none

/-- The section of a `RuntimeSettings` that the budget is made from. -/
structure RuntimeSettings where
  hunt_limits : HuntLimitSettings

/-! ### The budget -/

namespace BudgetLimits

/-- `BudgetLimits(**values)`: the checks of the fields, and then `validate_relationships`. -/
def validated (values : BudgetValues) : Except String BudgetLimits :=
  if positive : ∀ n ∈ values.positives, 0 < n then
    match related : values.validate_relationships with
    | none => .ok ⟨values, positive, related⟩
    | some message => .error message
  else .error "Input should be greater than 0"

theorem validated_eq_ok_iff {values : BudgetValues} {limits : BudgetLimits} (h : ∀ n ∈ values.positives, 0 < n) :
    validated values = .ok limits ↔ limits.toBudgetValues = values ∧ values.validate_relationships = none := by
  rw [validated, dif_pos h]
  split
  next related =>
    constructor
    · intro hok
      cases hok
      exact ⟨rfl, related⟩
    · rintro ⟨rfl, -⟩
      rfl
  next message broken => simp [broken]

end BudgetLimits

/-- The values that `budget_limits_from_settings` passes to `BudgetLimits`. The differences are of integers: see
`budget_split` for why none of them is negative. -/
def budget_values (settings : RuntimeSettings) : BudgetValues :=
  let limits := settings.hunt_limits
  let hard_seconds := limits.hard_completion_minutes * 60
  let synthesis_seconds := min limits.model_call_timeout_seconds (hard_seconds - 2)
  let inflight_seconds := min limits.search_job_timeout_seconds (min 120 (hard_seconds - synthesis_seconds - 1))
  { hard_hunt_seconds := hard_seconds
    query_start_cutoff_seconds := hard_seconds - synthesis_seconds - inflight_seconds
    max_inflight_query_seconds_after_cutoff := inflight_seconds
    synthesis_allowance_seconds := synthesis_seconds
    max_agent_cycles := limits.agent_cycles
    max_splunk_queries := limits.query_count
    max_concurrent_splunk_jobs := limits.per_hunt_query_concurrency
    max_active_hunts := limits.active_hunts_per_deployment
    max_deployment_splunk_jobs := limits.deployment_query_concurrency
    splunk_query_timeout_seconds := limits.search_job_timeout_seconds
    splunk_transport_timeout_seconds := limits.splunk_transport_timeout_seconds
    max_model_calls := limits.model_calls
    max_context_characters := limits.context_characters
    max_model_input_tokens := limits.input_tokens
    max_model_output_tokens := limits.output_tokens
    max_model_output_tokens_per_call := limits.output_tokens_per_call
    max_model_call_timeout_seconds := limits.model_call_timeout_seconds
    max_cached_rows_per_query := limits.per_query_row_limit
    max_cached_bytes_per_query := limits.per_query_byte_limit
    max_cached_rows_per_hunt := limits.per_hunt_row_limit
    max_cached_bytes_per_hunt := limits.per_hunt_byte_limit
    max_representative_events := limits.representative_event_limit
    max_targeted_events := limits.targeted_event_limit }

/-- `budget_limits_from_settings`. -/
def budget_limits_from_settings (settings : RuntimeSettings) : Except String BudgetLimits :=
  BudgetLimits.validated (budget_values settings)

namespace Runtime

variable (settings : RuntimeSettings)

/-- What the configuration's validator says of its limits. -/
theorem configured (limits : HuntLimitSettings) :
    limits.output_tokens_per_call ≤ limits.output_tokens ∧ limits.per_query_row_limit ≤ limits.per_hunt_row_limit ∧
      limits.per_query_byte_limit ≤ limits.per_hunt_byte_limit := by
  have related := limits.related
  rw [HuntLimitValues.validate_limit_relationships] at related
  split_ifs at related
  all_goals omega

/-- The hard deadline is split between the collection, the searches still running and the synthesis, with
something for each of them. -/
theorem budget_split :
    let values := budget_values settings
    (0 < values.query_start_cutoff_seconds ∧ 0 < values.max_inflight_query_seconds_after_cutoff ∧
        0 < values.synthesis_allowance_seconds) ∧
      values.query_start_cutoff_seconds + values.max_inflight_query_seconds_after_cutoff +
        values.synthesis_allowance_seconds = values.hard_hunt_seconds := by
  let limits := settings.hunt_limits
  have hminutes := limits.positive limits.hard_completion_minutes (by simp [HuntLimitValues.positives])
  have hmodel := limits.positive limits.model_call_timeout_seconds (by simp [HuntLimitValues.positives])
  have hsearch := limits.positive limits.search_job_timeout_seconds (by simp [HuntLimitValues.positives])
  simp only [budget_values, limits] at *
  omega

theorem budget_positive : ∀ n ∈ (budget_values settings).positives, 0 < n := by
  have hpositive := settings.hunt_limits.positive
  obtain ⟨⟨hcutoff, hinflight, hsynthesis⟩, -⟩ := budget_split settings
  simp only [HuntLimitValues.positives, BudgetValues.positives, List.forall_mem_cons, List.not_mem_nil,
    IsEmpty.forall_iff, implies_true, and_true] at hpositive ⊢
  refine ⟨?_, hcutoff, hinflight, hsynthesis, ?_⟩
  · show 0 < settings.hunt_limits.hard_completion_minutes * 60
    omega
  · simp only [budget_values]
    tauto

/-- The budget's validator asks for one relationship that the configuration's does not. -/
theorem budget_related :
    (budget_values settings).validate_relationships = none ↔
      settings.hunt_limits.representative_event_limit ≤ settings.hunt_limits.targeted_event_limit := by
  obtain ⟨⟨hcutoff, hinflight, hsynthesis⟩, hsplit⟩ := budget_split settings
  obtain ⟨htokens, hrows, hbytes⟩ := configured settings.hunt_limits
  have htimeout : (budget_values settings).max_inflight_query_seconds_after_cutoff ≤
      (budget_values settings).splunk_query_timeout_seconds := min_le_left _ _
  have htokens' : (budget_values settings).max_model_output_tokens_per_call ≤
      (budget_values settings).max_model_output_tokens := htokens
  have hrows' : (budget_values settings).max_cached_rows_per_query ≤
      (budget_values settings).max_cached_rows_per_hunt := hrows
  have hbytes' : (budget_values settings).max_cached_bytes_per_query ≤
      (budget_values settings).max_cached_bytes_per_hunt := hbytes
  rw [BudgetValues.validate_relationships, if_neg (by omega), if_neg (by omega), if_neg (by omega), if_neg (by omega),
    if_neg (by omega), if_neg (by omega), ite_eq_right_iff]
  show (settings.hunt_limits.targeted_event_limit < settings.hunt_limits.representative_event_limit → _) ↔ _
  simp

/-- All limits of a budget. -/
def allLimits (limits : BudgetLimits) : List Nat :=
  limits.positives ++
    [limits.max_model_repair_attempts, limits.max_transport_retries, limits.max_report_render_retries]

/-- The settings have a budget: all its limits are positive, and its parts fit within the hard deadline. -/
def Budgeted (settings : RuntimeSettings) : Prop :=
  ∃ limits, budget_limits_from_settings settings = .ok limits ∧ (∀ n ∈ allLimits limits, 0 < n) ∧
    limits.query_start_cutoff_seconds + limits.max_inflight_query_seconds_after_cutoff +
      limits.synthesis_allowance_seconds ≤ limits.hard_hunt_seconds

/-- **Budget.** Accepted settings have a valid budget exactly if their representative events are no more than their
targeted ones. -/
theorem budgeted_iff :
    Budgeted settings ↔
      settings.hunt_limits.representative_event_limit ≤ settings.hunt_limits.targeted_event_limit := by
  have hpositive := budget_positive settings
  rw [← budget_related settings]
  constructor
  · rintro ⟨limits, hok, -⟩
    exact ((BudgetLimits.validated_eq_ok_iff hpositive).mp hok).2
  · intro hrelated
    refine ⟨⟨budget_values settings, hpositive, hrelated⟩, (BudgetLimits.validated_eq_ok_iff hpositive).mpr ⟨rfl, hrelated⟩,
      ?_, (budget_split settings).2.le⟩
    rw [allLimits, List.forall_mem_append]
    exact ⟨hpositive, by simp [budget_values]⟩

/-- Settings with more representative events than targeted ones. -/
def uneven : RuntimeSettings where
  hunt_limits :=
    { representative_event_limit := 600
      positive := by decide
      related := by decide }

theorem uneven_not_budgeted : ¬Budgeted uneven := by
  rintro ⟨limits, hok, -⟩
  have hpositive := budget_positive uneven
  have hbroken : (budget_values uneven).validate_relationships ≠ none := by decide
  exact hbroken ((BudgetLimits.validated_eq_ok_iff hpositive).mp hok).2

end Runtime

end ThreatHunting
