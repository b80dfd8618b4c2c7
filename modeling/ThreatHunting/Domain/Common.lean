import Mathlib

/-!
# ThreatHunting.Domain.Common

The scalar types the services share, and the failures they raise
(`domain/errors.py`, `integrations/errors.py`).
-/

namespace ThreatHunting

/-- The text of a UUID. -/
abbrev Uuid := String

/-- An aware `datetime`, in microseconds. -/
abbrev Instant := Int

/-- `timedelta(seconds=n)`. -/
def seconds (n : Nat) : Int := (n : Int) * 1000000

theorem seconds_nonneg (n : Nat) : 0 ≤ seconds n := by
  unfold seconds
  omega

/-- `FailureCategory`. -/
inductive FailureCategory
  | temporary_network | rate_limited | provider_quota_exhausted | provider_server_error
  | invalid_credentials | permission_denied | invalid_configuration | tls_certificate_failure
  | database_failure | query_policy_rejected | model_output_invalid | hard_timeout
  | budget_exhausted | cancelled | validation_failure | unknown
  deriving DecidableEq, Repr

/-- The exceptions the modelled code raises or lets through. -/
inductive Fault
  | not_found (message : String)
  | conflict (message : String)
  | validation (message : String)
  | integration_unavailable (message : String)
  | job_conflict (message : String)
  | adapter_error (category : FailureCategory) (message operation : String)
  | model_contract_error (contract reason : String)
  | value_error (message : String)
  | integrity_error
  deriving DecidableEq, Repr

/-- The category of `failure_metadata`: exceptions without one are `unknown`. -/
def Fault.category : Fault → FailureCategory
  | .adapter_error category _ _ => category
  | .model_contract_error _ _ => .model_output_invalid
  | _ => .unknown

/-- The `error_type` of `failure_metadata`. -/
def Fault.error_type : Fault → String
  | .not_found _ => "NotFound"
  | .conflict _ => "Conflict"
  | .validation _ => "Validation"
  | .integration_unavailable _ => "IntegrationUnavailable"
  | .job_conflict _ => "JobConflict"
  | .adapter_error _ _ _ => "AdapterError"
  | .model_contract_error _ _ => "ModelContractError"
  | .value_error _ => "ValueError"
  | .integrity_error => "IntegrityError"

end ThreatHunting
