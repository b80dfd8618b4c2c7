import ThreatHunting.Spl.Source
import ThreatHunting.Spl.Fields

/-!
# ThreatHunting.Spl.Policy

`SPLPolicy.validate` of `domain/spl_policy.py`, with the contract types it reads
and returns. A `datetime` is a number of microseconds; the SHA-256 of the
canonical cache material enters as `CacheDigest`, a function of that material.
-/

namespace ThreatHunting.Spl

/-- An aware `datetime`, in microseconds. -/
abbrev Time := Int

/-- `ResultMode`. -/
inductive ResultMode
  | aggregate | representative | targeted
  deriving DecidableEq, Repr

/-- `QUERY_RESULT_LIMITS`. -/
def queryResultLimits : ResultMode → Nat
  | .aggregate => 500
  | .representative => 10000
  | .targeted => 10000

/-- `QueryProposal`. -/
structure QueryProposal where
  question_id : Text
  purpose : Text
  spl : Text
  earliest_utc : Time
  latest_utc : Time
  indexes : List Text
  sourcetypes : List Text
  requested_fields : List Text
  result_mode : ResultMode
  max_results : Nat
  deriving DecidableEq

/-- `EnforcedQueryLimits`. -/
structure EnforcedQueryLimits where
  max_results : Nat
  max_bytes : Nat
  timeout_seconds : Nat
  deriving DecidableEq

/-- `POLICY_VERSION`. -/
def policyVersion : String := "1.5"

/-- What a cache key is computed from. -/
structure CacheMaterial where
  normalized_spl : Text
  connection_id : Text
  execution_config_snapshot_id : Text
  earliest_utc : Time
  latest_utc : Time
  max_results : Nat
  max_bytes : Nat
  timeout_seconds : Nat
  policy_version : String
  deriving DecidableEq

/-- The SHA-256 of the canonical JSON of the cache material. -/
abbrev CacheDigest := CacheMaterial → Text

/-- `QueryValidationResult`, without the fresh `query_id` its caller receives. -/
structure QueryValidationResult where
  allowed : Bool
  normalized_spl : Text
  earliest_utc : Time
  latest_utc : Time
  cache_key : Option Text
  reason_codes : List String
  enforced_limits : EnforcedQueryLimits
  query_policy_version : String
  deriving DecidableEq

/-- `SPLPolicy`. -/
structure SPLPolicy where
  discovered_indexes : List Text
  discovered_sourcetypes : List Text
  discovered_fields : List Text
  approved_indexes : List Text
  approved_sourcetypes : List Text
  approved_earliest_utc : Time
  approved_latest_utc : Time
  connection_id : Text
  execution_config_snapshot_id : Text
  max_results_by_mode : ResultMode → Nat
  max_bytes : Nat
  timeout_seconds : Nat

namespace SPLPolicy

variable (db : UnicodeData)

/-- What the first two checks establish: the normalised text, the search
expression whose scope is checked, and the reasons found so far. -/
structure Parsed where
  normalized : Text
  scope_expression : Text
  reasons : List String

/-- Parsing, provenance and field references. Only a `ValueError` becomes a reason. -/
def parseChecks (policy : SPLPolicy) (spl : Text) : Except Raised Parsed :=
  match parse_spl db spl with
  | .error (.valueError _) =>
      let words := join " " (runs isSpace spl)
      .ok ⟨if words.isEmpty then "invalid".toList else words, spl, ["spl_not_allowed"]⟩
  | .error .stopIteration => .error .stopIteration
  | .ok parsed =>
      let expression := parsed.search_expression
      match preserve_raw_source_fields parsed with
      | .error (.valueError reason) => .ok ⟨parsed.normalized, expression, [reason]⟩
      | .error .stopIteration => .error .stopIteration
      | .ok normalized =>
          match validate_field_references db parsed policy.discovered_fields with
          | .error (.valueError reason) => .ok ⟨normalized, expression, [reason]⟩
          | .error .stopIteration => .error .stopIteration
          | .ok () => .ok ⟨normalized, expression, []⟩

/-- The reason the source branches give, if any. -/
def branchReasons (expression : Text) : List String :=
  match source_branches expression with
  | .error _ => ["source_expression_not_supported"]
  | .ok branches =>
      if branches.isEmpty then ["source_scope_contradictory"]
      else if branches.any fun b => b.1.isNone || b.2.isNone then ["source_scope_unbounded"]
      else []

/-- Do two lists hold the same members (`set(…) == set(…)`)? -/
def sameMembers (xs ys : List Text) : Bool := xs.all (· ∈ ys) && ys.all (· ∈ xs)

/-- How the values written for a scope field compare with the proposal's metadata. -/
def scopeReasons (field : String) (written declared : List Text) : List String :=
  if declared.isEmpty || written.isEmpty then [field ++ "_scope_missing"]
  else if sameMembers written declared then [] else [field ++ "_metadata_mismatch"]

/-- A reason that applies if `holds`. -/
def reasonIf (holds : Bool) (reason : String) : List String := if holds then [reason] else []

/-- Every reason to reject a proposal whose text parsed to `p`, in the order found. -/
def rejectionReasons (policy : SPLPolicy) (proposal : QueryProposal)
    (open_question_ids : Option (List Text)) (p : Parsed) : List String :=
  let indexes := scope_values db p.scope_expression "index".toList
  let sourcetypes := scope_values db p.scope_expression "sourcetype".toList
  p.reasons
    ++ branchReasons p.scope_expression
    ++ reasonIf indexes.2 "index_scope_not_exact"
    ++ reasonIf sourcetypes.2 "sourcetype_scope_not_exact"
    ++ scopeReasons "index" indexes.1 proposal.indexes
    ++ scopeReasons "sourcetype" sourcetypes.1 proposal.sourcetypes
    ++ reasonIf (!(Scan.findAll inlineTime proposal.spl).isEmpty) "inline_time_not_allowed"
    ++ reasonIf (open_question_ids.any (proposal.question_id ∉ ·)) "question_not_open"
    ++ reasonIf (!proposal.indexes.all fun i =>
        i ∈ policy.approved_indexes && i ∈ policy.discovered_indexes) "index_outside_scope"
    ++ reasonIf (!proposal.sourcetypes.all fun s =>
        s ∈ policy.approved_sourcetypes && s ∈ policy.discovered_sourcetypes)
        "sourcetype_outside_scope"
    ++ reasonIf (!proposal.requested_fields.all fun f =>
        f ∈ policy.discovered_fields || f ∈ builtinFields) "field_not_discovered"
    ++ reasonIf (proposal.earliest_utc < policy.approved_earliest_utc
        || proposal.latest_utc > policy.approved_latest_utc) "time_outside_scope"
    ++ reasonIf (proposal.max_results > policy.max_results_by_mode proposal.result_mode)
        "result_limit_exceeded"

/-- The material of the cache key. -/
def cacheMaterial (policy : SPLPolicy) (proposal : QueryProposal) (normalized : Text) :
    CacheMaterial where
  normalized_spl := normalized
  connection_id := policy.connection_id
  execution_config_snapshot_id := policy.execution_config_snapshot_id
  earliest_utc := proposal.earliest_utc
  latest_utc := proposal.latest_utc
  max_results := proposal.max_results
  max_bytes := policy.max_bytes
  timeout_seconds := policy.timeout_seconds
  policy_version := policyVersion

/-- `SPLPolicy.validate`. -/
def validate (digest : CacheDigest) (policy : SPLPolicy) (proposal : QueryProposal)
    (open_question_ids : Option (List Text)) : Except Raised QueryValidationResult := do
  let p ← parseChecks db policy proposal.spl
  let reasons := policy.rejectionReasons db proposal open_question_ids p
  let allowed := reasons.isEmpty
  let cap := policy.max_results_by_mode proposal.result_mode
  return {
    allowed
    normalized_spl := p.normalized
    earliest_utc := proposal.earliest_utc
    latest_utc := proposal.latest_utc
    cache_key :=
      if allowed then some (digest (policy.cacheMaterial proposal p.normalized)) else none
    reason_codes := reasons.eraseDups
    enforced_limits := {
      max_results := min proposal.max_results (max cap 1)
      max_bytes := policy.max_bytes
      timeout_seconds := policy.timeout_seconds }
    query_policy_version := policyVersion }

/-- The policy allows the proposal. -/
def Allows (digest : CacheDigest) (policy : SPLPolicy) (proposal : QueryProposal)
    (open_question_ids : Option (List Text)) : Prop :=
  ∃ result, policy.validate db digest proposal open_question_ids = .ok result ∧
    result.allowed = true

instance (digest : CacheDigest) (policy : SPLPolicy) (proposal : QueryProposal)
    (open_question_ids : Option (List Text)) :
    Decidable (policy.Allows db digest proposal open_question_ids) :=
  match h : policy.validate db digest proposal open_question_ids with
  | .ok result =>
      if ha : result.allowed = true then .isTrue ⟨result, h, ha⟩
      else .isFalse fun ⟨_, h', ha'⟩ => ha (by rw [h] at h'; exact Except.ok.inj h' ▸ ha')
  | .error _ => .isFalse fun ⟨_, h', _⟩ => by rw [h] at h'; cases h'

section Allowed

variable {db} {digest : CacheDigest} {policy : SPLPolicy} {proposal : QueryProposal}
  {open_question_ids : Option (List Text)}

@[simp] theorem reasonIf_eq_nil {holds : Bool} {reason : String} :
    reasonIf holds reason = [] ↔ holds = false := by
  cases holds <;> simp [reasonIf]

theorem scopeReasons_eq_nil {field : String} {written declared : List Text}
    (h : scopeReasons field written declared = []) : ∀ x, x ∈ written → x ∈ declared := by
  rw [scopeReasons] at h
  split at h
  · simp at h
  · split at h
    · rename_i hsame
      simp only [sameMembers, Bool.and_eq_true, List.all_eq_true, decide_eq_true_eq] at hsame
      exact hsame.1
    · simp at h

/-- What `parseChecks` found when it gives no reason to reject. -/
theorem parseChecks_eq_ok {spl : Text} {p : Parsed} (h : parseChecks db policy spl = .ok p)
    (hp : p.reasons = []) :
    ∃ parsed, parse_spl db spl = .ok parsed ∧ p.scope_expression = parsed.search_expression ∧
      preserve_raw_source_fields parsed = .ok p.normalized ∧
      validate_field_references db parsed policy.discovered_fields = .ok () := by
  rw [parseChecks] at h
  split at h
  · simp only [Except.ok.injEq] at h
    rw [← h] at hp
    simp at hp
  · simp at h
  · rename_i parsed hparsed
    simp only at h
    split at h
    · simp only [Except.ok.injEq] at h
      rw [← h] at hp
      simp at hp
    · simp at h
    · rename_i normalized hnormalized
      split at h
      · simp only [Except.ok.injEq] at h
        rw [← h] at hp
        simp at hp
      · simp at h
      · rename_i hfields
        simp only [Except.ok.injEq] at h
        subst h
        exact ⟨parsed, hparsed, rfl, hnormalized, hfields⟩

/-- An allowed proposal passed every check. -/
theorem validate_allowed {result : QueryValidationResult}
    (h : policy.validate db digest proposal open_question_ids = .ok result)
    (hallowed : result.allowed = true) :
    ∃ p, parseChecks db policy proposal.spl = .ok p ∧
      rejectionReasons db policy proposal open_question_ids p = [] ∧
      result.normalized_spl = p.normalized := by
  rw [validate] at h
  obtain ⟨p, hp, h⟩ := Fallible.bind_eq_ok.mp h
  simp only [pure, Except.pure, Except.ok.injEq] at h
  subst h
  exact ⟨p, hp, by simpa using hallowed, rfl⟩

/-- What an allowed proposal's search expression was found to say. -/
structure ScopeChecked (db : UnicodeData) (policy : SPLPolicy) (expression : Text)
    (branches : List Branch) : Prop where
  branches_eq : source_branches expression = .ok branches
  ne_nil : branches ≠ []
  bounded : ∀ b ∈ branches, ∃ i s, b = (some i, some s)
  index_exact : (scope_values db expression "index".toList).2 = false
  sourcetype_exact : (scope_values db expression "sourcetype".toList).2 = false
  index_scope : ∀ i ∈ (scope_values db expression "index".toList).1,
    i ∈ policy.approved_indexes ∧ i ∈ policy.discovered_indexes
  sourcetype_scope : ∀ s ∈ (scope_values db expression "sourcetype".toList).1,
    s ∈ policy.approved_sourcetypes ∧ s ∈ policy.discovered_sourcetypes

theorem branchReasons_eq_nil {expression : Text} (h : branchReasons expression = []) :
    ∃ branches, source_branches expression = .ok branches ∧ branches ≠ [] ∧
      ∀ b ∈ branches, ∃ i s, b = (some i, some s) := by
  rw [branchReasons] at h
  split at h
  · simp at h
  · rename_i branches hbranches
    split at h
    · simp at h
    · rename_i hne
      split at h
      · simp at h
      · rename_i hbounded
        refine ⟨branches, hbranches, by simpa using hne, ?_⟩
        intro ⟨i, s⟩ hb
        simp only [List.any_eq_true, not_exists, not_and] at hbounded
        have := hbounded _ hb
        simp only [Bool.or_eq_true, not_or, Bool.not_eq_true, Option.isNone_eq_false_iff,
          Option.isSome_iff_exists] at this
        obtain ⟨⟨i', hi⟩, s', hs⟩ := this
        exact ⟨i', s', Prod.ext hi hs⟩

/-- Every check on the source scope of an allowed proposal succeeded. -/
theorem Allows.scope (h : policy.Allows db digest proposal open_question_ids) :
    ∃ parsed branches, parse_spl db proposal.spl = .ok parsed ∧
      ScopeChecked db policy parsed.search_expression branches := by
  obtain ⟨result, hresult, hallowed⟩ := h
  obtain ⟨p, hp, hreasons, -⟩ := validate_allowed hresult hallowed
  simp only [rejectionReasons, List.append_eq_nil_iff, reasonIf_eq_nil] at hreasons
  obtain ⟨⟨⟨⟨⟨⟨⟨⟨⟨⟨⟨⟨hp₁, hbranches⟩, hi⟩, hs⟩, hiscope⟩, hsscope⟩, -⟩, -⟩, hip⟩, hsp⟩, -⟩, -⟩, -⟩ :=
    hreasons
  obtain ⟨parsed, hparsed, hexpr, -, -⟩ := parseChecks_eq_ok hp hp₁
  rw [hexpr] at hbranches hi hs hiscope hsscope
  obtain ⟨branches, heq, hne, hbounded⟩ := branchReasons_eq_nil hbranches
  simp only [Bool.not_eq_false', List.all_eq_true, Bool.and_eq_true, decide_eq_true_eq] at hip hsp
  exact ⟨parsed, branches, hparsed, heq, hne, hbounded, hi, hs,
    fun i hmem => hip i (scopeReasons_eq_nil hiscope i hmem),
    fun s hmem => hsp s (scopeReasons_eq_nil hsscope s hmem)⟩

/-- The text of an allowed proposal was parsed, normalised and checked. -/
theorem validate_parsed {result : QueryValidationResult}
    (h : policy.validate db digest proposal open_question_ids = .ok result)
    (hallowed : result.allowed = true) :
    ∃ parsed, parse_spl db proposal.spl = .ok parsed ∧
      preserve_raw_source_fields parsed = .ok result.normalized_spl ∧
      validate_field_references db parsed policy.discovered_fields = .ok () := by
  obtain ⟨p, hp, hreasons, hnormalized⟩ := validate_allowed h hallowed
  simp only [rejectionReasons, List.append_eq_nil_iff, reasonIf_eq_nil] at hreasons
  obtain ⟨parsed, hparsed, -, hpreserved, hfields⟩ :=
    parseChecks_eq_ok hp hreasons.1.1.1.1.1.1.1.1.1.1.1.1
  exact ⟨parsed, hparsed, hnormalized ▸ hpreserved, hfields⟩

end Allowed

end SPLPolicy

/-! ### Sample values -/

/-- A Unicode database that knows the folded letters. -/
def foldedLetters : UnicodeData where
  word := isFoldedLetter
  decimal := fun _ => none
  digit := fun _ => false
  word_of_isSpace := fun _ => of_isSpace (fun c => isFoldedLetter c = false) (by decide)

/-- A policy that approves one index and one sourcetype. -/
def singleSourcePolicy (discovered_fields : List Text) : SPLPolicy where
  discovered_indexes := ["main".toList]
  discovered_sourcetypes := ["a".toList]
  discovered_fields := discovered_fields
  approved_indexes := ["main".toList]
  approved_sourcetypes := ["a".toList]
  approved_earliest_utc := 0
  approved_latest_utc := 3600
  connection_id := "splunk-local".toList
  execution_config_snapshot_id := "snapshot-1".toList
  max_results_by_mode := queryResultLimits
  max_bytes := 1048576
  timeout_seconds := 60

/-- A proposal for the source that policy approves. -/
def singleSourceProposal (spl : String) : QueryProposal where
  question_id := "question-1".toList
  purpose := "scope".toList
  spl := spl.toList
  earliest_utc := 0
  latest_utc := 3600
  indexes := ["main".toList]
  sourcetypes := ["a".toList]
  requested_fields := []
  result_mode := .representative
  max_results := 100

end ThreatHunting.Spl
