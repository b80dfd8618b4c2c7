import ThreatHunting.Lib.Distinct
import ThreatHunting.Services.ReportContent

/-!
# ThreatHunting.Domain.QueryStrategy

`domain/query_strategy.py`: the bounded selectivity estimate of a query candidate and the ranking of a set of
candidates. Mappings hold values of any type, so that every conversion of the source is a case split here.

Scores are exact: what the source computes with floats is a rational. The SHA-256 of a candidate's canonical
material, what pydantic makes of the fields of a mapping, and `str` of a value that is no string enter as
parameters.
-/

namespace ThreatHunting

namespace QueryStrategy

open Fallible
open ReportContent (Stamp)
open Spl (Time ResultMode queryResultLimits CacheDigest SPLPolicy QueryValidationResult builtinFields parse_spl)

/-! ### Values -/

/-- The exceptions of the module. A `QueryStrategyError` is a `ValueError`. -/
inductive Raised
  | strategy_error (message reason_code : String)
  | value_error (message : String)
  | type_error
  | attribute_error
  | overflow_error
  | stop_iteration
  deriving DecidableEq, Repr

/-- What `except (TypeError, ValueError)` catches. -/
def Raised.caught : Raised → Bool
  | .strategy_error _ _ | .value_error _ | .type_error => true
  | .attribute_error | .overflow_error | .stop_iteration => false

/-- The exception that the module promises. -/
def Raised.isStrategyError : Raised → Bool
  | .strategy_error _ _ => true
  | _ => false

/-- A computation in a `try` block with that clause; `none` where the clause is entered. -/
def attempt {α : Type} : Except Raised α → Except Raised (Option α)
  | .ok a => .ok (some a)
  | .error e => if e.caught then .ok none else .error e

/-- `ScopeEntity`. -/
structure ScopeEntity where
  field : Text
  value : Text
  deriving DecidableEq

/-- A value of a mapping: a JSON value, a `datetime`, an entity, or a list that holds such. -/
inductive Value
  | json (j : Json)
  | datetime (stamp : Stamp)
  | entity (e : ScopeEntity)
  | list (items : List Value)

/-- A mapping with text keys. -/
abbrev Mapping := List (String × Value)

/-- `d.get(key)`, where an absent key is not `None`. -/
def lookup (m : Mapping) (key : String) : Option Value := (m.find? (·.1 = key)).map (·.2)

/-- `value is None`. -/
def Value.isNone : Value → Bool
  | .json .null => true
  | _ => false

/-- `d.get(key)`, where `None` is as good as an absent key. -/
def field (m : Mapping) (key : String) : Option Value := (lookup m key).filter (!·.isNone)

/-- The text of a `str`. -/
def Value.string? : Value → Option Text
  | .json (.string s) => some s.toList
  | _ => none

/-- The items of a list. -/
def Value.items? : Value → Option (List Value)
  | .json (.array items) => some (items.map .json)
  | .list items => some items
  | _ => none

/-- The members of a mapping. -/
def Value.members? : Value → Option Mapping
  | .json (.object ms) => some (ms.map fun m => (m.1, .json m.2))
  | _ => none

/-- `bool(value)`. -/
def Value.truthy : Value → Bool
  | .json j => ModelOutput.truthy j
  | .list items => !items.isEmpty
  | _ => true

/-- `ensure_utc`: only a `datetime` has a `tzinfo`. -/
def ensure_utc : Value → Except Raised Time
  | .datetime stamp =>
      match ReportContent.utc stamp with
      | .ok time => .ok time
      | .error .overflow_error => .error .overflow_error
      | .error _ => .error (.value_error "timestamp must include a timezone offset")
  | _ => .error .attribute_error

/-- The items that are texts with more than whitespace, stripped. -/
def strings (items : List Value) : List Text := (items.filterMap Value.string?).map strip |>.filter (· ≠ [])

/-- `_string_sequence`. -/
def string_sequence (value : Option Value) : Option (List Text) := (value.bind Value.items?).map strings

/-- `_bounded_int`, without a maximum. -/
def bounded_int : Value → Option Nat
  | .json (.int n) => if n < 0 then none else some n.toNat
  | _ => none

/-- `ScopeEntity.model_validate`; `none` where it raises `ValidationError`. -/
def ScopeEntity.model_validate (m : Mapping) : Option ScopeEntity :=
  match (lookup m "field").bind Value.string?, (lookup m "value").bind Value.string? with
  | some f, some v =>
      if f ≠ [] ∧ v ≠ [] ∧ m.all (fun member => member.1 = "field" ∨ member.1 = "value") then some ⟨f, v⟩ else none
  | _, _ => none

/-- One item of `_scope_entities`. -/
def scope_entity : Value → Option ScopeEntity
  | .entity e => some e
  | value => value.members?.bind ScopeEntity.model_validate

/-- `_scope_entities`. -/
def scope_entities (value : Option Value) : Option (List ScopeEntity) :=
  (value.bind Value.items?).bind fun items => items.mapM scope_entity

/-! ### Candidates and their identity -/

/-- `QueryProposal`, with the field that only its identity depends on. -/
structure Proposal extends Spl.QueryProposal where
  expected_information_gain : Text
  deriving DecidableEq

/-- What pydantic makes of the fields of a mapping, before the validators of the class; a field is `none` where it
is refused, and so are the others if one of them is refused or there is one more. -/
structure ProposalFields where
  earliest_utc : Option Stamp
  latest_utc : Option Stamp
  others : Option (Time → Time → Proposal)

/-- What the module takes from outside. -/
structure Environment where
  db : UnicodeData
  cache_key : CacheDigest
  /-- The SHA-256 of the canonical JSON of a hunt id and a proposal. -/
  sha256 : Text → Proposal → Text
  /-- The fields of `QueryProposal` in a mapping. -/
  fields : Mapping → ProposalFields
  /-- `str` of a value that is no string; `none` for an integer that is too long to convert. -/
  str : Value → Option Text

variable (env : Environment)

/-- `candidate_id`. -/
def candidate_id (hunt_id : Text) (proposal : Proposal) : Except Raised Text :=
  if strip hunt_id = [] then .error (.strategy_error "hunt_id must be non-empty" "missing_hunt_id")
  else .ok ("query:".toList ++ env.sha256 hunt_id proposal)

/-- The validator `_as_utc` of a field; a `ValueError` refuses the field, an `OverflowError` is let through. -/
def utc_field : Option Stamp → Except Raised (Option Time)
  | none => .ok none
  | some stamp => attempt (ensure_utc (.datetime stamp))

/-- `QueryProposal.model_validate`; `none` where it raises `ValidationError`. -/
def model_validate (payload : Mapping) : Except Raised (Option Proposal) := do
  let parsed := env.fields payload
  let earliest_utc ← utc_field parsed.earliest_utc
  let latest_utc ← utc_field parsed.latest_utc
  match parsed.others, earliest_utc, latest_utc with
  | some others, some earliest, some latest =>
      let proposal := others earliest latest
      if latest ≤ earliest then return none
      else if proposal.max_results > queryResultLimits proposal.result_mode then return none
      else return some proposal
  | _, _, _ => return none

/-- A candidate of the caller. -/
inductive Candidate
  | proposal (proposal : Proposal)
  | mapping (m : Mapping)
  | other

/-- `_coerce_proposal`. -/
def coerce_proposal : Candidate → Except Raised Proposal
  | .proposal proposal => .ok proposal
  | .other => .error (.strategy_error "candidate must be an object" "candidate_invalid")
  | .mapping m => do
      let payload := m.filter fun member => member.1 ≠ "idempotency_key" ∧ member.1 ≠ "query_id"
      match ← model_validate env payload with
      | some proposal => return proposal
      | none => throw (.strategy_error "candidate does not match QueryProposal" "candidate_invalid")

/-! ### History -/

/-- `QueryHistoryObservation`. -/
structure QueryHistoryObservation where
  query_id : Text
  cache_key : Option Text
  normalized_spl : Option Text
  result_rows : Nat
  result_bytes : Nat
  state : Text
  outcome : Option Text
  truncated : Bool
  partial_fetch : Bool
  expires_at : Option Stamp

/-- An item of the history. -/
inductive HistoryItem
  | observation (o : QueryHistoryObservation)
  | mapping (m : Mapping)
  | other

/-- `str(value)`. -/
def text (value : Value) : Option Text := value.string?.or (env.str value)

/-- `str(value[key]) if value.get(key) is not None else None`; the outer `none` is a `ValueError`. -/
def optionalText (m : Mapping) (key : String) : Option (Option Text) :=
  match field m key with
  | none => some none
  | some value => (text env value).map some

/-- A time that was converted to UTC. -/
def utcStamp (time : Time) : Stamp := ⟨time, some 0⟩

/-- The expiry of `_parse_history`; the outer `none` is where it is refused. -/
def expiry (m : Mapping) : Except Raised (Option (Option Stamp)) :=
  match ((lookup m "expires_at").or (lookup m "cache_expires_at")).filter (!·.isNone) with
  | none => .ok (some none)
  | some raw => (attempt (ensure_utc raw)).map fun time => time.map fun time => some (utcStamp time)

/-- `_parse_history`. -/
def parse_history : HistoryItem → Except Raised (Option QueryHistoryObservation)
  | .observation o => .ok (some o)
  | .other => .ok none
  | .mapping m =>
      match ((lookup m "query_id").or (lookup m "id")).bind Value.string? with
      | none => .ok none
      | some query_id =>
          if strip query_id = [] then .ok none
          else do
            match ← expiry m with
            | none => return none
            | some expires_at =>
                let rows := ((lookup m "result_rows").or (lookup m "result_count")).elim (some 0) bounded_int
                let bytes := (lookup m "result_bytes").elim (some 0) bounded_int
                return do
                  let result_rows ← rows
                  let result_bytes ← bytes
                  let cache_key ← optionalText env m "cache_key"
                  let normalized_spl ← optionalText env m "normalized_spl"
                  let state ← (lookup m "state").elim (some []) (text env)
                  let outcome ← optionalText env m "outcome"
                  return {
                    query_id, cache_key, normalized_spl, result_rows, result_bytes, state, outcome, expires_at
                    truncated := (lookup m "truncated").any Value.truthy
                    partial_fetch := ((lookup m "partial_fetch").or (lookup m "partial")).any Value.truthy }

/-- `expires_at <= current`: a `datetime` without an offset cannot be compared. -/
def expired (stamp : Stamp) (current : Time) : Except Raised Bool :=
  match stamp.utcoffset with
  | none => .error .type_error
  | some utcoffset => .ok (stamp.wall - utcoffset ≤ current)

/-- The checks of `_eligible_history` on one observation. -/
def isEligible (cache_key normalized_spl : Text) (current : Time) (o : QueryHistoryObservation) :
    Except Raised Bool :=
  if o.state ≠ "completed".toList ∧ o.state ≠ "cached".toList then .ok false
  else if o.outcome ≠ none ∧ o.outcome ≠ some "success".toList ∧ o.outcome ≠ some "succeeded".toList then .ok false
  else if o.truncated || o.partial_fetch then .ok false
  else match o.expires_at with
    | none => .ok false
    | some stamp => do
        if ← expired stamp current then return false
        else if o.cache_key ≠ some cache_key then return false
        else return o.normalized_spl.all (· = normalized_spl)

/-- One turn of the loop of `_eligible_history`. -/
def eligible (cache_key normalized_spl : Text) (current : Time) (item : HistoryItem) :
    Except Raised (Option QueryHistoryObservation) := do
  match ← parse_history env item with
  | none => return none
  | some o => return if ← isEligible cache_key normalized_spl current o then some o else none

/-- `_eligible_history`. -/
def eligible_history (history : List HistoryItem) (cache_key : Option Text) (normalized_spl : Text)
    (now : Option Stamp) : Except Raised (List QueryHistoryObservation) :=
  match cache_key, now with
  | some cache_key, some now => do
      let current ← ensure_utc (.datetime now)
      return (← history.mapM (eligible env cache_key normalized_spl current)).reduceOption
  | _, _ => .ok []

/-! ### Filters -/

/-- `[A-Za-z0-9_.:-]`. -/
def isNameChar (c : Char) : Bool := isAsciiWord c || c == '.' || c == ':' || c == '-'

/-- `[^\s|,()]`. -/
def isValueChar (c : Char) : Bool := !(isSpace c || c == '|' || c == ',' || c == '(' || c == ')')

/-- `q([^q]*)q`: what stands between two quotes, and what follows. -/
def quoted (q : Char) : Text → Option (Text × Text)
  | [] => none
  | c :: cs =>
      if c = q then
        match cs.dropWhile (· ≠ q) with
        | [] => none
        | _ :: rest => some (cs.takeWhile (· ≠ q), rest)
      else none

/-- The value of an assignment, and what follows. -/
def assignedValue (cs : Text) : Option (Text × Text) :=
  quoted '"' cs <|> quoted '\'' cs <|>
    if (cs.takeWhile isValueChar).isEmpty then none else some (cs.takeWhile isValueChar, cs.dropWhile isValueChar)

/-- `_FILTER_ASSIGNMENT`, tried after `prev`: the field, its value, and what follows. -/
def filterAssignment (prev : Option Char) (cs : Text) : Option ((Text × Text) × Text) :=
  match cs with
  | [] => none
  | c :: _ =>
      if prev.any isNameChar || !(isAsciiLetter c || c == '_') then none
      else match skipSpaces (cs.dropWhile isNameChar) with
        | '=' :: rest => (assignedValue (skipSpaces rest)).map fun m => ((cs.takeWhile isNameChar, m.1), m.2)
        | _ => none

/-- `finditer`: the matches from left to right, each sought behind the one before; the first `n` characters belong
to the last match. -/
def assignments : Nat → Option Char → Text → List (Text × Text)
  | _, _, [] => []
  | n + 1, _, c :: cs => assignments n (some c) cs
  | 0, prev, c :: cs =>
      match filterAssignment prev (c :: cs) with
      | some (m, rest) => m :: assignments (cs.length - rest.length) (some c) cs
      | none => assignments 0 (some c) cs

/-- `_NON_FILTER_FIELDS`. -/
def nonFilterFields : List Text := ["index", "sourcetype", "earliest", "latest"].map String.toList

/-- The filters of one command. -/
def segmentFilters (segment : Spl.Segment) : List (Text × Text) :=
  match segment.1 with
  | .search | .where | .regex =>
      (assignments 0 none segment.2).filter fun m => casefold m.1 ∉ nonFilterFields ∧ m.2 ≠ []
  | _ => []

/-- `_extract_filters`. -/
def extract_filters (proposal : Proposal) : Except Raised (List (Text × Text)) :=
  match parse_spl env.db proposal.spl with
  | .error (.valueError _) => .ok []
  | .error .stopIteration => .error .stop_iteration
  | .ok parsed => .ok (parsed.command_segments.flatMap segmentFilters).eraseDups

/-! ### Scores -/

/-- `_round_half_up`. -/
def round_half_up (q : ℚ) : Int := ⌊q + 1 / 2⌋

/-- `_clamp`. -/
def clamp {α : Type} [LinearOrder α] (value minimum maximum : α) : α := min maximum (max minimum value)

/-- `_scope_values`. -/
structure ScopeValues where
  earliest : Option Value
  latest : Option Value
  indexes : Option (List Text)
  sourcetypes : Option (List Text)
  entities : Option (List ScopeEntity)

def scope_values (scope : Mapping) : ScopeValues where
  earliest := field scope "earliest_utc"
  latest := field scope "latest_utc"
  indexes := string_sequence (field scope "indexes")
  sourcetypes := string_sequence (field scope "sourcetypes")
  entities := scope_entities (field scope "entities")

/-- `set(xs).issubset(set(ys))`. -/
def isSubset (xs ys : List Text) : Bool := xs.all (· ∈ ys)

/-- `_telemetry_confirmed`. -/
def telemetry_confirmed (proposal : Proposal) (scope discovery : Option Mapping) : Option Bool × Option String :=
  match discovery with
  | none => (none, some "discovery_unknown")
  | some discovery =>
      match lookup discovery "complete" with
      | some (.json (.bool true)) =>
          let approved key := scope.bind fun scope => string_sequence (field scope key)
          match string_sequence (field discovery "indexes"), string_sequence (field discovery "sourcetypes"),
            string_sequence (field discovery "fields"), approved "indexes", approved "sourcetypes" with
          | some indexes, some sourcetypes, some fields, some approved_indexes, some approved_sources =>
              (some (isSubset proposal.indexes indexes && isSubset proposal.sourcetypes sourcetypes
                && isSubset proposal.requested_fields (fields ++ builtinFields)
                && isSubset proposal.indexes approved_indexes && isSubset proposal.sourcetypes approved_sources), none)
          | _, _, _, _, _ => (none, some "telemetry_scope_unknown")
      | some (.json (.bool false)) => (none, some "discovery_partial")
      | _ => (none, some "discovery_unknown")

/-- The points of `_scope_specificity`. -/
def specificityPoints (candidate_seconds approved_seconds : Int) (matched_entities entities : Nat) : Int :=
  let time_narrowness := clamp (1 - (candidate_seconds : ℚ) / approved_seconds) 0 1
  let entity_narrowness : ℚ := if entities = 0 then 0 else matched_entities / entities
  clamp (round_half_up (15 * (1 / 2 * time_narrowness + 1 / 2 * entity_narrowness))) 0 15

/-- `_scope_specificity`: the points, or why there are none, and how many entities the filters name. -/
def scope_specificity (proposal : Proposal) (scope : Option Mapping) (filters : List (Text × Text)) :
    Except Raised (Option Int × Option String × Nat) :=
  match scope.map scope_values with
  | none => .ok (none, some "approved_scope_unknown", 0)
  | some ⟨some earliest_raw, some latest_raw, some _, some _, some entities⟩ => do
      let bounds ← attempt do
        let approved_earliest ← ensure_utc earliest_raw
        let approved_latest ← ensure_utc latest_raw
        return (approved_earliest, approved_latest)
      match bounds with
      | none => return (none, some "approved_scope_time_invalid", 0)
      | some (approved_earliest, approved_latest) =>
          let approved_seconds := approved_latest - approved_earliest
          let candidate_seconds := proposal.latest_utc - proposal.earliest_utc
          if approved_seconds ≤ 0 ∨ candidate_seconds ≤ 0 then return (none, some "scope_time_invalid", 0)
          else
            let matched_entities := (entities.filter fun entity => (entity.field, entity.value) ∈ filters).length
            return (some (specificityPoints candidate_seconds approved_seconds matched_entities entities.length), none,
              matched_entities)
  | some _ => .ok (none, some "approved_scope_incomplete", 0)

/-- The cost of `_selectivity_cost`. -/
def heuristicCost (proposal : Proposal) (timeShare : ℚ) (indexes sourcetypes : List Text) (cap : Nat)
    (filter_quality : ℚ) : Int :=
  let time_ratio := clamp timeShare 0 1
  let index_ratio : ℚ := clamp (proposal.indexes.length / indexes.length) 0 1
  let source_ratio : ℚ := clamp (proposal.sourcetypes.length / sourcetypes.length) 0 1
  let result_ratio : ℚ := clamp (proposal.max_results / cap) 0 1
  clamp (round_half_up (40 * time_ratio + 15 * index_ratio + 15 * source_ratio + 20 * result_ratio
    + 10 * (1 - filter_quality))) 0 100

/-- `_selectivity_cost`: the cost, what it is based on, or why it is unknown. -/
def selectivity_cost (proposal : Proposal) (scope : Option Mapping) (policy : Option SPLPolicy)
    (filters : List (Text × Text)) (matched_entities : Nat) : Except Raised (Option Int × List String × List String) :=
  match scope.map scope_values with
  | none => .ok (none, [], ["approved_scope_unknown"])
  | some ⟨some earliest_raw, some latest_raw, some indexes, some sourcetypes, _⟩ => do
      let bounds ← attempt do
        let approved_latest ← ensure_utc latest_raw
        let approved_earliest ← ensure_utc earliest_raw
        return approved_latest - approved_earliest
      match bounds with
      | none => return (none, [], ["approved_scope_time_invalid"])
      | some approved_seconds =>
          let candidate_seconds := proposal.latest_utc - proposal.earliest_utc
          if approved_seconds ≤ 0 ∨ candidate_seconds ≤ 0 then return (none, [], ["scope_time_invalid"])
          else if indexes.isEmpty ∨ sourcetypes.isEmpty then return (none, [], ["approved_telemetry_scope_unknown"])
          else
            let cap := policy.elim proposal.max_results fun policy => policy.max_results_by_mode proposal.result_mode
            if cap = 0 then return (none, [], ["result_cap_unknown"])
            else
              let known_fields := builtinFields ++ policy.elim [] SPLPolicy.discovered_fields
              let valid_non_entity_filters := (filters.filter fun m => m.1 ∈ known_fields).length
              let filter_quality : ℚ := clamp ((2 * matched_entities + valid_non_entity_filters : Nat) / 8) 0 1
              return (some (heuristicCost proposal (candidate_seconds / approved_seconds) indexes sourcetypes cap
                filter_quality),
                ["fixed_time_scope", "approved_index_scope", "approved_sourcetype_scope", "valid_filters"], [])
  | some _ => .ok (none, [], ["approved_scope_incomplete"])

/-! ### The estimate -/

/-- `SelectivityConfidence`. -/
inductive SelectivityConfidence
  | high | medium | low | unknown
  deriving DecidableEq, Repr

/-- `SelectivityEstimate`. -/
structure SelectivityEstimate where
  candidate_id : Text
  estimated_rows : Option Nat
  estimated_bytes : Option Nat
  estimated_cost : Option Int
  confidence : SelectivityConfidence
  basis : List String
  unknown_reasons : List String
  deriving DecidableEq

/-- The value lies between 0 and a maximum, if there is one. -/
def inBounds (value : Option Int) (maximum : Nat) : Bool := value.all fun n => 0 ≤ n && n ≤ (maximum : Int)

/-- `SelectivityEstimate(…)`, with the checks of `__post_init__`. -/
def SelectivityEstimate.checked (e : SelectivityEstimate) : Except Raised SelectivityEstimate :=
  if e.candidate_id.isEmpty then .error (.value_error "selectivity candidate_id must be non-empty")
  else if !inBounds e.estimated_cost 100 then .error (.value_error "estimated_cost must be between 0 and 100 or None")
  else if ¬e.basis.Nodup then .error (.value_error "selectivity basis must be unique")
  else if ¬e.unknown_reasons.Nodup then .error (.value_error "selectivity unknown reasons must be unique")
  else .ok e

/-- `policy.validate`. -/
def validate (policy : SPLPolicy) (proposal : Proposal) (open_question_ids : Option (List Text)) :
    Except Raised QueryValidationResult :=
  match policy.validate env.db env.cache_key proposal.toQueryProposal open_question_ids with
  | .ok result => .ok result
  | .error (.valueError message) => .error (.value_error message)
  | .error .stopIteration => .error .stop_iteration

/-- `max(policy.max_results_by_mode.values())`. -/
def rowLimit (policy : SPLPolicy) : Nat :=
  max (policy.max_results_by_mode .aggregate)
    (max (policy.max_results_by_mode .representative) (policy.max_results_by_mode .targeted))

/-- The cost of a query that ran before. -/
def observedCost (policy : SPLPolicy) (o : QueryHistoryObservation) : Int :=
  clamp (round_half_up (50 * o.result_rows / (max (rowLimit policy) 1 : Nat)
    + 50 * o.result_bytes / (max policy.max_bytes 1 : Nat))) 0 100

/-- `sorted(eligible, key=lambda item: item.query_id)[0]`, if there is one. -/
def chosen (eligible : List QueryHistoryObservation) : Option QueryHistoryObservation :=
  (Distinct.sortBy QueryHistoryObservation.query_id eligible).head?

/-- The confidence of an estimate. -/
def confidenceOf (observed : Bool) (cost : Option Int) (unknown : List String) (telemetry : Option Bool) :
    SelectivityConfidence :=
  if observed && unknown.isEmpty then .high
  else if cost.isSome && unknown.isEmpty && telemetry ≠ some false then .low
  else .unknown

/-- The arguments that estimates and rankings share. -/
structure Context where
  hunt_id : Text
  approved_scope : Option Mapping
  discovery : Option Mapping
  policy : Option SPLPolicy
  history : Option (List HistoryItem)
  now : Option Stamp

/-- What the policy adds to the basis, and to the unknown reasons. -/
def policyNotes : Option QueryValidationResult → List String × List String
  | none => ([], ["policy_unavailable"])
  | some validation => if validation.allowed then (["policy_validated"], []) else ([], ["policy_rejected"])

/-- What the history adds to them. -/
def historyNotes (c : Context) (observed : Bool) : List String × List String :=
  if observed then (["exact_compatible_history"], [])
  else if c.history.isNone then ([], ["history_unavailable"])
  else if c.now.isNone then ([], ["history_time_unknown"])
  else (["no_exact_compatible_history"], [])

/-- The cost of what was observed, and else that of the heuristic. -/
def finalCost (policy : Option SPLPolicy) (observation : Option QueryHistoryObservation) (cost : Option Int) :
    Option Int :=
  match observation, policy with
  | some o, some policy => some (observedCost policy o)
  | _, _ => cost

/-- The estimate that the findings of its steps make up. -/
def estimateOf (c : Context) (cid : Text) (validation : Option QueryValidationResult)
    (telemetry : Option Bool × Option String) (scope_reason : Option String)
    (cost : Option Int × List String × List String) (observation : Option QueryHistoryObservation) :
    SelectivityEstimate :=
  let unknown_reasons := ((policyNotes validation).2 ++ telemetry.2.toList ++ scope_reason.toList ++ cost.2.2
    ++ (historyNotes c observation.isSome).2).eraseDups
  let confidence := confidenceOf observation.isSome (finalCost c.policy observation cost.1) unknown_reasons telemetry.1
  { candidate_id := cid
    estimated_rows := observation.map QueryHistoryObservation.result_rows
    estimated_bytes := observation.map QueryHistoryObservation.result_bytes
    estimated_cost := if confidence ≠ .unknown then finalCost c.policy observation cost.1 else none
    confidence
    basis := ((policyNotes validation).1 ++ (if telemetry.1 = some true then ["complete_discovery"] else []) ++ cost.2.1
      ++ (historyNotes c observation.isSome).1).eraseDups
    unknown_reasons }

/-- The cache key that the history is searched for. -/
def searchedKey (validation : Option QueryValidationResult) : Option Text :=
  validation.bind fun validation => if validation.allowed then validation.cache_key else none

/-- `estimate_selectivity`. -/
def estimate_selectivity (c : Context) (open_question_ids : Option (List Text)) (proposal : Proposal) :
    Except Raised SelectivityEstimate := do
  let cid ← candidate_id env c.hunt_id proposal
  let validation ← c.policy.mapM fun policy => validate env policy proposal open_question_ids
  let telemetry := telemetry_confirmed proposal c.approved_scope c.discovery
  let filters ← extract_filters env proposal
  let specificity ← scope_specificity proposal c.approved_scope filters
  let cost ← selectivity_cost proposal c.approved_scope c.policy filters specificity.2.2
  let normalized_spl := validation.elim proposal.spl QueryValidationResult.normalized_spl
  let eligible ← eligible_history env (c.history.getD []) (searchedKey validation) normalized_spl c.now
  (estimateOf c cid validation telemetry specificity.2.1 cost (chosen eligible)).checked

/-! ### The ranking -/

/-- The keys of `_SCORE_COMPONENTS`. -/
inductive Component
  | unresolved_question | approved_telemetry | evidence_pivot | scope_specificity | selectivity | not_already_answered
  deriving DecidableEq, Repr

/-- `_SCORE_COMPONENTS`. -/
def Component.maximum : Component → Nat
  | .unresolved_question => 30
  | .approved_telemetry => 20
  | .evidence_pivot => 20
  | .scope_specificity => 15
  | .selectivity => 10
  | .not_already_answered => 5

/-- The name of a component. -/
def Component.name : Component → String
  | .unresolved_question => "unresolved_question"
  | .approved_telemetry => "approved_telemetry"
  | .evidence_pivot => "evidence_pivot"
  | .scope_specificity => "scope_specificity"
  | .selectivity => "selectivity"
  | .not_already_answered => "not_already_answered"

/-- The components, in the order of `_SCORE_COMPONENTS`. -/
def Component.all : List Component :=
  [.unresolved_question, .approved_telemetry, .evidence_pivot, .scope_specificity, .selectivity, .not_already_answered]

/-- `RejectedCandidate`. -/
structure RejectedCandidate where
  source_index : Nat
  candidate_id : Text
  reason_code : String
  deriving DecidableEq

/-- `RankedQueryCandidate`. -/
structure RankedQueryCandidate where
  candidate_id : Text
  proposal : Proposal
  approved_question_position : Nat
  shadow_rank : Nat
  score : Option Int
  score_components : Component → Option Int
  selectivity : SelectivityEstimate
  fallback_reason : Option String

/-- `RankedQueryCandidate(…)`, with the checks of `__post_init__`. -/
def RankedQueryCandidate.checked (c : RankedQueryCandidate) : Except Raised RankedQueryCandidate :=
  if c.shadow_rank = 0 then .error (.value_error "shadow rank must be positive")
  else if !inBounds c.score 100 then .error (.value_error "score must be between 0 and 100 or None")
  else match Component.all.find? fun name => !inBounds (c.score_components name) name.maximum with
    | some name => .error (.value_error ("score component " ++ name.name ++ " is outside its bound"))
    | none => .ok c

/-- `QueryRankingResult`. -/
structure QueryRankingResult where
  ranked : List RankedQueryCandidate
  rejected : List RejectedCandidate
  duplicates_removed : List Text

/-- A pivot: a mapping, or another object by its attribute `value`. -/
inductive Pivot
  | mapping (m : Mapping)
  | object (value : Option Value)

/-- The text of a pivot's value. -/
def Pivot.text : Pivot → Option Text
  | .mapping m => (lookup m "value").bind Value.string?
  | .object value => value.bind Value.string?

/-- `_pivot_match`. -/
def pivot_match (filters : List (Text × Text)) (pivots : List Pivot) : Bool :=
  filters.any fun m => m.2 ≠ [] && m.2 ∈ pivots.filterMap Pivot.text

/-- The arguments of `rank_query_candidates` that only it has. -/
structure Request where
  approved_question_order : List Value
  open_question_ids : Option (List Value)
  linked_pivots : Option (List Pivot)
  candidate_cap : Int

/-- `MAX_CANDIDATE_CAP`. -/
def MAX_CANDIDATE_CAP : Int := 32

/-- The checks before any candidate is looked at; they return the plan order and the open questions. -/
def checkRequest (c : Context) (request : Request) (proposals : List Candidate) :
    Except Raised (List Text × Option (List Text)) :=
  let plan_order := strings request.approved_question_order
  let open_questions := request.open_question_ids.map strings
  if ¬(1 ≤ request.candidate_cap ∧ request.candidate_cap ≤ MAX_CANDIDATE_CAP) then
    .error (.strategy_error "candidate_cap must be between 1 and 32" "candidate_cap_invalid")
  else if proposals.length > request.candidate_cap then
    .error (.strategy_error ("candidate set exceeds cap of " ++ toString request.candidate_cap) "candidate_cap_exceeded")
  else if strip c.hunt_id = [] then .error (.strategy_error "hunt_id must be non-empty" "missing_hunt_id")
  else if plan_order.isEmpty ∨ ¬plan_order.Nodup then
    .error (.strategy_error "approved question order must contain unique non-empty IDs"
      "approved_question_order_invalid")
  else if open_questions.any fun ids => ¬ids.Nodup then
    .error (.strategy_error "open question IDs must be unique" "open_questions_invalid")
  else .ok (plan_order, open_questions)

/-- A candidate and its identity. -/
def identity (hunt_id : Text) (raw : Candidate) : Except Raised (Proposal × Text) := do
  let proposal ← coerce_proposal env raw
  let cid ← candidate_id env hunt_id proposal
  return (proposal, cid)

/-- The same in the loop, where a `QueryStrategyError` gets the candidate's position. -/
def identify (hunt_id : Text) (index : Nat) (raw : Candidate) : Except Raised (Proposal × Text) :=
  match identity env hunt_id raw with
  | .error (.strategy_error message reason_code) =>
      .error (.strategy_error ("candidate " ++ toString index ++ " is invalid: " ++ message) reason_code)
  | result => result

/-- The candidates that are new, with their position, and the identities that repeat. -/
def normalize (hunt_id : Text) (seen : List Text) (index : Nat) :
    List Candidate → Except Raised (List (Nat × Proposal × Text) × List Text)
  | [] => .ok ([], [])
  | raw :: proposals => do
      let (proposal, cid) ← identify env hunt_id index raw
      if cid ∈ seen then
        let (normalized, duplicates) ← normalize hunt_id seen (index + 1) proposals
        return (normalized, cid :: duplicates)
      else
        let (normalized, duplicates) ← normalize hunt_id (cid :: seen) (index + 1) proposals
        return ((index, proposal, cid) :: normalized, duplicates)

/-- The components of a candidate's score. -/
def scoreComponents (telemetry : Option Bool) (isOpen : Option Unit) (pivots : Option (List Pivot))
    (filters : List (Text × Text)) (scope : Option Int) (history : Option (List HistoryItem))
    (selectivity : SelectivityEstimate) : Component → Option Int
  | .unresolved_question => isOpen.map fun _ => 30
  | .approved_telemetry => if telemetry = some true then some 20 else none
  | .evidence_pivot => pivots.map fun pivots => if pivot_match filters pivots then 20 else 0
  | .scope_specificity => scope
  | .selectivity => selectivity.estimated_cost.map fun (cost : Int) => round_half_up (10 * (1 - cost / 100))
  | .not_already_answered => history.map fun _ => if selectivity.estimated_rows.isSome then 0 else 5

/-- The sum of the components, if all are known and nothing else is unknown. -/
def scoreOf (unknown_reasons : List String) (components : Component → Option Int) : Option Int :=
  if unknown_reasons.isEmpty then (Component.all.mapM components).map List.sum else none

/-- `sort_key`. -/
def sortKey (c : RankedQueryCandidate) : Nat ×ₗ Nat ×ₗ Int ×ₗ Text :=
  toLex (c.approved_question_position,
    toLex (if c.score.isSome then 0 else 1, toLex (-c.score.getD 0, c.candidate_id)))

/-- Why a candidate's score is unknown, or must not be used. -/
def unknownReasons (c : Context) (request : Request) (open_questions : Option (List Text))
    (telemetry_reason scope_reason : Option String) (selectivity : SelectivityEstimate) : List String :=
  let question_reason := if open_questions.isNone then some "open_questions_unknown" else none
  let pivot_reason := if request.linked_pivots.isNone then some "linked_pivots_unknown" else none
  let duplicate_reason :=
    if c.history.isNone then some "history_unknown"
    else if selectivity.estimated_rows.isSome then some "equivalent_completed_query" else none
  (selectivity.unknown_reasons
    ++ [question_reason, telemetry_reason, scope_reason, pivot_reason, duplicate_reason].reduceOption).eraseDups

/-- The candidate of provisional rank. -/
def provisional (proposal : Proposal) (cid : Text) (position : Nat) (unknown_reasons : List String)
    (components : Component → Option Int) (selectivity : SelectivityEstimate) : RankedQueryCandidate where
  candidate_id := cid
  proposal := proposal
  approved_question_position := position
  shadow_rank := 1
  score := scoreOf unknown_reasons components
  score_components := components
  selectivity := selectivity
  fallback_reason :=
    if (scoreOf unknown_reasons components).isSome then none
    else some (unknown_reasons.head?.getD "ranking_input_unknown")

/-- The turn of the loop over the normalised candidates: the reason of a rejection, or a candidate of provisional
rank. -/
def assess (c : Context) (request : Request) (plan_order : List Text) (open_questions : Option (List Text))
    (proposal : Proposal) (cid : Text) : Except Raised (String ⊕ RankedQueryCandidate) :=
  if proposal.question_id ∉ plan_order then .ok (.inl "question_not_in_approved_plan")
  else if open_questions.any fun ids => proposal.question_id ∉ ids then .ok (.inl "question_not_open")
  else match c.policy with
  | none => .ok (.inl "policy_unavailable")
  | some policy => do
      let validation ← validate env policy proposal open_questions
      if !validation.allowed then return .inl "policy_rejected"
      else
        let telemetry := telemetry_confirmed proposal c.approved_scope c.discovery
        let filters ← extract_filters env proposal
        let specificity ← scope_specificity proposal c.approved_scope filters
        let selectivity ← estimate_selectivity env c open_questions proposal
        let components := scoreComponents telemetry.1 (open_questions.map fun _ => ()) request.linked_pivots filters
          specificity.1 c.history selectivity
        let unknown_reasons := unknownReasons c request open_questions telemetry.2 specificity.2.1 selectivity
        let ranked ← (provisional proposal cid (plan_order.idxOf proposal.question_id) unknown_reasons components
          selectivity).checked
        return .inr ranked

/-- The same for an entry of the normalised candidates: a rejection names its position and identity. -/
def judge (c : Context) (request : Request) (plan_order : List Text) (open_questions : Option (List Text))
    (entry : Nat × Proposal × Text) : Except Raised (RejectedCandidate ⊕ RankedQueryCandidate) :=
  (assess env c request plan_order open_questions entry.2.1 entry.2.2).map
    (Sum.map (fun reason => ⟨entry.1, entry.2.2, reason⟩) id)

/-- The final ranks. -/
def assignRanks (provisional : List RankedQueryCandidate) : Except Raised (List RankedQueryCandidate) :=
  (provisional.zipIdx 1).mapM fun (c, rank) => RankedQueryCandidate.checked { c with shadow_rank := rank }

/-- `rank_query_candidates`. -/
def rank_query_candidates (c : Context) (request : Request) (proposals : List Candidate) :
    Except Raised QueryRankingResult := do
  let (plan_order, open_questions) ← checkRequest c request proposals
  let (normalized, duplicates) ← normalize env c.hunt_id [] 0 proposals
  let judged ← normalized.mapM (judge env c request plan_order open_questions)
  let ranked ← assignRanks (Distinct.sortBy sortKey (judged.filterMap Sum.getRight?))
  return { ranked, rejected := judged.filterMap Sum.getLeft?, duplicates_removed := duplicates }

end QueryStrategy

end ThreatHunting
