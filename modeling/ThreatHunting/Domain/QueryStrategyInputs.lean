import ThreatHunting.Domain.QueryRanking

/-!
# ThreatHunting.Domain.QueryStrategyInputs

What estimates and rankings do with mappings of JSON values. No JSON value is a `datetime`, but `ensure_utc` takes
every value for one: the time of a scope or the expiry of a history item that is given as a text raises an
`AttributeError`, which no `except` clause of the module catches. A candidate whose time leaves the years of a
`datetime` when it is converted to UTC raises an `OverflowError`. Nothing else escapes.
-/

namespace ThreatHunting

namespace QueryStrategy

open Fallible
open ReportContent (Stamp inRange)
open Spl (Time SPLPolicy QueryValidationResult)

/-! ### Inputs -/

/-- A mapping of JSON values. -/
def JsonOnly (m : Mapping) : Prop := ∀ member ∈ m, ∃ j, member.2 = .json j

/-- The mappings of a request hold JSON values; a history item may also be no mapping. -/
structure JsonInputs (c : Context) : Prop where
  scope : ∀ scope, c.approved_scope = some scope → JsonOnly scope
  history : ∀ items, c.history = some items → ∀ item ∈ items, item = .other ∨ ∃ m, item = .mapping m ∧ JsonOnly m

theorem JsonOnly.lookup {m : Mapping} (h : JsonOnly m) {key : String} {value : Value}
    (hvalue : lookup m key = some value) : ∃ j, value = .json j := by
  obtain ⟨member, hmember, rfl⟩ := Option.map_eq_some_iff.mp hvalue
  exact h member (List.mem_of_find?_eq_some hmember)

theorem JsonOnly.field {m : Mapping} (h : JsonOnly m) {key : String} {value : Value}
    (hvalue : field m key = some value) : ∃ j, value = .json j :=
  h.lookup (Option.filter_eq_some_iff.mp hvalue).1

/-- A scope says when it begins and ends, and lists its indexes and sourcetypes. -/
def TimesGiven (scope : Mapping) : Prop :=
  (field scope "earliest_utc").isSome ∧ (field scope "latest_utc").isSome ∧
    (string_sequence (field scope "indexes")).isSome ∧ (string_sequence (field scope "sourcetypes")).isSome

/-- A history item has an identity and says when it expires. -/
def ExpiryGiven : HistoryItem → Prop
  | .mapping m =>
      (∃ query_id, ((lookup m "query_id").or (lookup m "id")).bind Value.string? = some query_id ∧
        strip query_id ≠ []) ∧
      (((lookup m "expires_at").or (lookup m "cache_expires_at")).filter (!·.isNone)).isSome
  | _ => False

/-- A `datetime` that cannot be converted to UTC. -/
def Unconvertible (stamp : Stamp) : Prop :=
  ∀ utcoffset, stamp.utcoffset = some utcoffset → inRange (stamp.wall - utcoffset) = false

/-- A `datetime` that leaves the range of years when it is converted. -/
def OutOfRange (stamp : Stamp) : Prop :=
  ∃ utcoffset, stamp.utcoffset = some utcoffset ∧ inRange (stamp.wall - utcoffset) = false

/-- The clock or an item of the history makes the search for a completed query fail. -/
def HistoryFails (c : Context) : Prop :=
  ∃ now, c.now = some now ∧ (Unconvertible now ∨ ∃ item ∈ c.history.getD [], ExpiryGiven item)

variable {env : Environment}

theorem ensure_utc_json (j : Json) : ensure_utc (.json j) = .error .attribute_error := rfl

theorem attempt_attribute_error {α : Type} : attempt (.error .attribute_error : Except Raised α) = .error .attribute_error :=
  rfl

theorem succeeds_ensure_utc {stamp : Stamp} : Succeeds (ensure_utc (.datetime stamp)) ↔ ¬Unconvertible stamp := by
  obtain ⟨wall, utcoffset⟩ := stamp
  cases utcoffset with
  | none =>
      refine iff_of_false (not_succeeds_error _) (not_not.mpr ?_)
      exact fun _ h => by cases h
  | some utcoffset =>
      rw [ensure_utc, ReportContent.utc]
      dsimp only
      cases hrange : inRange (wall - utcoffset) with
      | true =>
          refine iff_of_true (succeeds_ok _) fun h => ?_
          rw [h utcoffset rfl] at hrange
          cases hrange
      | false =>
          refine iff_of_false (not_succeeds_error _) (not_not.mpr ?_)
          intro _ h
          cases h
          exact hrange

/-! ### The scope -/

section Scope

variable {proposal : Proposal} {scope : Option Mapping} {filters : List (Text × Text)}

/-- The scope given, if there is one, does not make the code fail. -/
def ScopeReady (scope : Option Mapping) : Prop := ∀ m, scope = some m → ¬TimesGiven m

theorem succeeds_selectivity_cost (hjson : ∀ m, scope = some m → JsonOnly m) {policy : Option SPLPolicy}
    {matched_entities : Nat} :
    Succeeds (selectivity_cost proposal scope policy filters matched_entities) ↔ ScopeReady scope := by
  cases scope with
  | none => exact iff_of_true (succeeds_ok _) nofun
  | some m =>
      have hm := hjson m rfl
      have hready : ScopeReady (some m) ↔ ¬TimesGiven m := ⟨fun h => h m rfl, fun h _ heq => Option.some.inj heq ▸ h⟩
      rw [hready, TimesGiven, selectivity_cost, Option.map_some, QueryStrategy.scope_values]
      cases hearliest : field m "earliest_utc" with
      | none => exact iff_of_true (succeeds_ok _) (fun h => by cases h.1)
      | some earliest =>
          cases hlatest : field m "latest_utc" with
          | none => exact iff_of_true (succeeds_ok _) (fun h => by cases h.2.1)
          | some latest =>
              cases string_sequence (field m "indexes") with
              | none => exact iff_of_true (succeeds_ok _) (fun h => by cases h.2.2.1)
              | some indexes =>
                  cases string_sequence (field m "sourcetypes") with
                  | none => exact iff_of_true (succeeds_ok _) (fun h => by cases h.2.2.2)
                  | some sourcetypes =>
                      -- both times are given, and no JSON value is a `datetime`
                      obtain ⟨j, rfl⟩ := hm.field hlatest
                      refine iff_of_false ?_ (not_not.mpr ⟨rfl, rfl, rfl, rfl⟩)
                      change ¬Succeeds (Except.error Raised.attribute_error)
                      exact not_succeeds_error _

theorem succeeds_scope_specificity (hjson : ∀ m, scope = some m → JsonOnly m) (hready : ScopeReady scope) :
    ∃ reason ∈ ["approved_scope_unknown", "approved_scope_incomplete"],
      scope_specificity proposal scope filters = .ok (none, some reason, 0) := by
  cases scope with
  | none => exact ⟨_, List.mem_cons_self, rfl⟩
  | some m =>
      have hm := hready m rfl
      refine ⟨"approved_scope_incomplete", by decide, ?_⟩
      rw [scope_specificity, Option.map_some, QueryStrategy.scope_values]
      rw [TimesGiven] at hm
      cases hearliest : field m "earliest_utc" with
      | none => rfl
      | some earliest =>
          cases hlatest : field m "latest_utc" with
          | none => rfl
          | some latest =>
              cases hindexes : string_sequence (field m "indexes") with
              | none => rfl
              | some indexes =>
                  cases hsourcetypes : string_sequence (field m "sourcetypes") with
                  | none => rfl
                  | some sourcetypes =>
                      rw [hearliest, hlatest, hindexes, hsourcetypes] at hm
                      exact absurd ⟨rfl, rfl, rfl, rfl⟩ hm

end Scope

/-! ### The history -/

theorem parse_history_json {item : HistoryItem} (hjson : item = .other ∨ ∃ m, item = .mapping m ∧ JsonOnly m) :
    (ExpiryGiven item ∧ parse_history env item = .error .attribute_error) ∨
      ¬ExpiryGiven item ∧ ∃ o, parse_history env item = .ok o ∧ ∀ o' ∈ o, o'.expires_at = none := by
  refine hjson.elim (fun h => ?_) fun ⟨m, h, hm⟩ => ?_
  · subst h
    exact .inr ⟨not_false, none, rfl, nofun⟩
  · subst h
    rw [parse_history, ExpiryGiven]
    cases hid : ((lookup m "query_id").or (lookup m "id")).bind Value.string? with
    | none =>
        refine .inr ⟨fun h => ?_, none, rfl, nofun⟩
        obtain ⟨⟨_, h, _⟩, _⟩ := h
        cases h
    | some query_id =>
        by_cases hblank : strip query_id = []
        · refine .inr ⟨fun h => ?_, none, if_pos hblank, nofun⟩
          obtain ⟨⟨_, h, hne⟩, _⟩ := h
          cases h
          exact hne hblank
        · dsimp only
          rw [if_neg hblank, expiry]
          cases hexpires : ((lookup m "expires_at").or (lookup m "cache_expires_at")).filter (!·.isNone) with
          | none =>
              refine .inr ⟨fun h => Bool.noConfusion h.2, _, rfl, fun o' ho' => ?_⟩
              simp only [Option.mem_def, Option.bind_eq_bind, Option.bind_eq_some_iff, Option.pure_def,
                Option.some.injEq] at ho'
              obtain ⟨_, _, _, _, _, _, _, _, _, _, _, _, rfl⟩ := ho'
              rfl
          | some raw =>
              refine .inl ⟨⟨⟨query_id, rfl, hblank⟩, rfl⟩, ?_⟩
              have hraw : ∃ j, raw = .json j := by
                have hor := (Option.filter_eq_some_iff.mp hexpires).1
                rw [Option.or_eq_some_iff] at hor
                exact hor.elim hm.lookup fun h => hm.lookup h.2
              obtain ⟨j, rfl⟩ := hraw
              rfl

/-- A JSON item is never a completed query that can be used again. -/
theorem eligible_json {item : HistoryItem} {cache_key normalized_spl : Text} {current : Time}
    (hjson : item = .other ∨ ∃ m, item = .mapping m ∧ JsonOnly m) :
    (ExpiryGiven item ∧ eligible env cache_key normalized_spl current item = .error .attribute_error) ∨
      ¬ExpiryGiven item ∧ eligible env cache_key normalized_spl current item = .ok none := by
  refine (@parse_history_json env item hjson).elim (fun ⟨hgiven, h⟩ => .inl ⟨hgiven, ?_⟩) fun ⟨hgiven, o, h, ho⟩ =>
    .inr ⟨hgiven, ?_⟩
  · rw [eligible, h]
    rfl
  · rw [eligible, h]
    cases o with
    | none => rfl
    | some o =>
        have hnone := ho o rfl
        rw [ok_bind]
        dsimp only
        have hfalse : isEligible cache_key normalized_spl current o = .ok false := by
          rw [isEligible, hnone]
          split
          · rfl
          split
          · rfl
          split <;> rfl
        rw [hfalse]
        rfl

theorem succeeds_eligible_history {c : Context} (hjson : JsonInputs c) (cache_key : Option Text) (normalized_spl : Text) :
    Succeeds (eligible_history env (c.history.getD []) cache_key normalized_spl c.now) ↔
      ¬(cache_key.isSome ∧ HistoryFails c) := by
  have hitems : ∀ item ∈ c.history.getD [], item = .other ∨ ∃ m, item = .mapping m ∧ JsonOnly m := by
    cases hhistory : c.history with
    | none => nofun
    | some items => exact hjson.history items hhistory
  cases cache_key with
  | none => exact iff_of_true (succeeds_ok _) fun h => by cases h.1
  | some cache_key =>
      rw [HistoryFails]
      cases c.now with
      | none => exact iff_of_true (succeeds_ok _) fun ⟨_, now, h, _⟩ => by cases h
      | some now =>
          have hloop : ∀ current, Succeeds ((c.history.getD []).mapM (eligible env cache_key normalized_spl current)) ↔
              ¬∃ item ∈ c.history.getD [], ExpiryGiven item := by
            intro current
            rw [succeeds_mapM, not_exists]
            refine forall_congr' fun item => ?_
            rw [not_and]
            refine forall_congr' fun hitem => ?_
            refine (@eligible_json env item cache_key normalized_spl current (hitems item hitem)).elim
              (fun ⟨hgiven, h⟩ => ?_) fun ⟨hgiven, h⟩ => ?_
            · rw [h]
              exact iff_of_false (not_succeeds_error _) (not_not.mpr hgiven)
            · rw [h]
              exact iff_of_true (succeeds_ok _) hgiven
          rw [eligible_history, succeeds_bind fun current _ => succeeds_bind_pure.trans (hloop current),
            succeeds_ensure_utc]
          simp only [Option.isSome_some, true_and, Option.some.injEq, exists_eq_left', not_or]

/-! ### The estimate -/

theorem succeeds_extract_filters (proposal : Proposal) : Succeeds (extract_filters env proposal) := by
  have hparse : Raises (fun e => ∃ message, e = .valueError message) (Spl.parse_spl env.db proposal.spl) := by
    have hsegment : ∀ first part, Raises (fun e => ∃ message, e = Spl.Raised.valueError message)
        (Spl.parseSegment env.db first part) := by
      intro first part
      rw [Spl.parseSegment]
      split
      · exact .ok _
      split
      · exact .error ⟨_, rfl⟩
      · split
        · split
          · exact .ok _
          · exact .error ⟨_, rfl⟩
        · split
          · exact .ok _
          · exact .error ⟨_, rfl⟩
    rw [Spl.parse_spl]
    split
    · exact .error ⟨_, rfl⟩
    split
    · exact .error ⟨_, rfl⟩
    split
    · exact .error ⟨_, rfl⟩
    · refine Raises.map ?_
      cases Spl.pipelineParts proposal.spl with
      | nil => exact .ok _
      | cons part parts =>
          exact (hsegment true part).bind fun _ _ => (Raises.mapM fun part _ => hsegment false part).bind fun _ _ =>
            .pure _
  rw [extract_filters]
  split
  · exact succeeds_ok _
  · rename_i h
    obtain ⟨message, hmessage⟩ := hparse _ h
    cases hmessage
  · exact succeeds_ok _

theorem succeeds_validate {policy : SPLPolicy} {proposal : Proposal} {open_question_ids : Option (List Text)} :
    Succeeds (validate env policy proposal open_question_ids) ↔
      Succeeds (policy.validate env.db env.cache_key proposal.toQueryProposal open_question_ids) := by
  rw [validate]
  split
  · rename_i h
    rw [h]
    exact iff_of_true (succeeds_ok _) (succeeds_ok _)
  · rename_i h
    rw [h]
    exact iff_of_false (not_succeeds_error _) (not_succeeds_error _)
  · rename_i h
    rw [h]
    exact iff_of_false (not_succeeds_error _) (not_succeeds_error _)

/-- The policy of the request allows a candidate. -/
def Allowed (env : Environment) (c : Context) (open_question_ids : Option (List Text)) (proposal : Proposal) : Prop :=
  ∃ policy, c.policy = some policy ∧
    policy.Allows env.db env.cache_key proposal.toQueryProposal open_question_ids

/-- The policy of the request, if there is one, returns a result for a candidate. -/
def Validates (env : Environment) (c : Context) (open_question_ids : Option (List Text)) (proposal : Proposal) : Prop :=
  ∀ policy, c.policy = some policy →
    Succeeds (policy.validate env.db env.cache_key proposal.toQueryProposal open_question_ids)

section Validate

variable {policy : SPLPolicy} {proposal : Proposal} {open_question_ids : Option (List Text)}
  {result : QueryValidationResult}

theorem validate_eq_ok (h : validate env policy proposal open_question_ids = .ok result) :
    policy.validate env.db env.cache_key proposal.toQueryProposal open_question_ids = .ok result := by
  rw [validate] at h
  split at h
  · cases h
    assumption
  · cases h
  · cases h

theorem allows_iff (h : validate env policy proposal open_question_ids = .ok result) :
    policy.Allows env.db env.cache_key proposal.toQueryProposal open_question_ids ↔ result.allowed = true := by
  rw [SPLPolicy.Allows, validate_eq_ok h]
  exact ⟨fun ⟨_, heq, hallowed⟩ => Except.ok.inj heq ▸ hallowed, fun hallowed => ⟨result, rfl, hallowed⟩⟩

/-- Exactly an allowed candidate has a key that the history is searched for. -/
theorem searchedKey_isSome (h : validate env policy proposal open_question_ids = .ok result) :
    (searchedKey (some result)).isSome ↔
      policy.Allows env.db env.cache_key proposal.toQueryProposal open_question_ids := by
  have hkey : result.allowed = true → result.cache_key.isSome := by
    intro hallowed
    have hvalidate := validate_eq_ok h
    rw [SPLPolicy.validate] at hvalidate
    obtain ⟨p, -, hvalidate⟩ := bind_eq_ok.mp hvalidate
    cases hvalidate
    dsimp only at hallowed ⊢
    rw [if_pos hallowed]
    rfl
  rw [allows_iff h, searchedKey, Option.bind_some]
  cases hallowed : result.allowed with
  | true => exact iff_of_true (hkey hallowed) rfl
  | false => exact iff_of_false Bool.false_ne_true Bool.false_ne_true

end Validate

section Estimate

variable {c : Context} {open_question_ids : Option (List Text)} {proposal : Proposal}

/-- An estimate of JSON inputs returns exactly if the policy does, the scope gives no times, and the history of an
allowed candidate does not fail. -/
theorem succeeds_estimate_selectivity (hhunt : strip c.hunt_id ≠ []) (hjson : JsonInputs c) :
    Succeeds (estimate_selectivity env c open_question_ids proposal) ↔
      Validates env c open_question_ids proposal ∧ ScopeReady c.approved_scope ∧
        ¬(Allowed env c open_question_ids proposal ∧ HistoryFails c) := by
  have hkey : ∀ {validation}, (c.policy.mapM fun policy => validate env policy proposal open_question_ids) =
      .ok validation → ((searchedKey validation).isSome ↔ Allowed env c open_question_ids proposal) := by
    intro validation h
    rw [Allowed]
    cases hpolicy : c.policy with
    | none =>
        rw [hpolicy] at h
        cases h
        exact iff_of_false Bool.false_ne_true fun h => by
          obtain ⟨_, h, _⟩ := h
          cases h
    | some policy =>
        rw [hpolicy] at h
        obtain ⟨result, hresult, h⟩ := bind_eq_ok.mp h
        cases h
        rw [searchedKey_isSome hresult]
        exact ⟨fun h => ⟨policy, rfl, h⟩, fun h => h.elim fun _ h => Option.some.inj h.1 ▸ h.2⟩
  have hvalidates : Succeeds (c.policy.mapM fun policy => validate env policy proposal open_question_ids) ↔
      Validates env c open_question_ids proposal := by
    rw [Validates]
    cases c.policy with
    | none => exact iff_of_true (succeeds_pure _) fun _ heq => by cases heq
    | some policy =>
        refine succeeds_bind_pure.trans (succeeds_validate.trans ?_)
        exact ⟨fun h _ heq => Option.some.inj heq ▸ h, fun h => h policy rfl⟩
  rw [estimate_selectivity, candidate_id, if_neg hhunt, ok_bind]
  obtain ⟨filters, hfilters⟩ := @succeeds_extract_filters env proposal
  rw [hfilters]
  rw [succeeds_bind fun validation hvalidation => ?_, hvalidates]
  rw [ok_bind]
  constructor
  · rintro ⟨e, h⟩
    obtain ⟨specificity, _, h⟩ := bind_eq_ok.mp h
    obtain ⟨cost, hcost, h⟩ := bind_eq_ok.mp h
    obtain ⟨eligible, heligible, _⟩ := bind_eq_ok.mp h
    rw [← hkey hvalidation]
    exact ⟨(succeeds_selectivity_cost hjson.scope).mp ⟨cost, hcost⟩,
      (succeeds_eligible_history hjson _ _).mp ⟨eligible, heligible⟩⟩
  · rintro ⟨hscope, hhistory⟩
    rw [← hkey hvalidation] at hhistory
    obtain ⟨reason, -, hspecificity⟩ := succeeds_scope_specificity hjson.scope hscope
    obtain ⟨cost, hcost⟩ := (succeeds_selectivity_cost hjson.scope).mpr hscope
    obtain ⟨eligible, heligible⟩ := (succeeds_eligible_history hjson _ _).mpr hhistory
    rw [hspecificity, ok_bind, hcost, ok_bind]
    dsimp only
    rw [heligible, ok_bind,
      estimateOf_checked (List.append_ne_nil_of_left_ne_nil (by decide) _) (selectivity_cost_bounds hcost)]
    exact succeeds_ok _

/-- What an estimate records of inputs that it cannot use. -/
structure Recorded (c : Context) (proposal : Proposal) (e : SelectivityEstimate) : Prop where
  confidence : e.confidence = .unknown
  cost : e.estimated_cost = none
  scope : "approved_scope_unknown" ∈ e.unknown_reasons ∨ "approved_scope_incomplete" ∈ e.unknown_reasons
  telemetry : ∀ reason, (telemetry_confirmed proposal c.approved_scope c.discovery).2 = some reason →
    reason ∈ e.unknown_reasons

theorem recorded_of_estimate {e : SelectivityEstimate} (hjson : JsonInputs c)
    (h : estimate_selectivity env c open_question_ids proposal = .ok e) : Recorded c proposal e := by
  rw [estimate_selectivity] at h
  obtain ⟨cid, hcid, h⟩ := bind_eq_ok.mp h
  obtain ⟨validation, _, h⟩ := bind_eq_ok.mp h
  obtain ⟨filters, _, h⟩ := bind_eq_ok.mp h
  obtain ⟨specificity, hspecificity, h⟩ := bind_eq_ok.mp h
  obtain ⟨cost, hcost, h⟩ := bind_eq_ok.mp h
  obtain ⟨eligible, _, h⟩ := bind_eq_ok.mp h
  rw [estimateOf_checked (candidate_id_ne_nil hcid) (selectivity_cost_bounds hcost)] at h
  cases h
  obtain ⟨reason, hreason, hspecificity'⟩ := @succeeds_scope_specificity proposal c.approved_scope filters hjson.scope
    ((succeeds_selectivity_cost hjson.scope).mp ⟨cost, hcost⟩)
  rw [hspecificity] at hspecificity'
  cases hspecificity'
  have hscope : reason ∈ (estimateOf c cid validation (telemetry_confirmed proposal c.approved_scope c.discovery)
      (some reason) cost (chosen eligible)).unknown_reasons := by
    simp [estimateOf, List.mem_eraseDups]
  have htelemetry : ∀ reason', (telemetry_confirmed proposal c.approved_scope c.discovery).2 = some reason' →
      reason' ∈ (estimateOf c cid validation (telemetry_confirmed proposal c.approved_scope c.discovery)
        (some reason) cost (chosen eligible)).unknown_reasons := by
    intro reason' hreason'
    simp [estimateOf, List.mem_eraseDups, hreason']
  have hconfidence : (estimateOf c cid validation (telemetry_confirmed proposal c.approved_scope c.discovery)
      (some reason) cost (chosen eligible)).confidence = .unknown := by
    have hne := List.isEmpty_eq_false_iff.mpr (List.ne_nil_of_mem hscope)
    unfold estimateOf at hne ⊢
    dsimp only at hne ⊢
    rw [confidenceOf, hne, Bool.and_false, Bool.and_false, Bool.false_and]
    rfl
  refine ⟨hconfidence, ?_, ?_, htelemetry⟩
  · unfold estimateOf at hconfidence ⊢
    dsimp only at hconfidence ⊢
    rw [hconfidence]
    rfl
  · simp only [List.mem_cons, List.not_mem_nil, or_false] at hreason
    refine hreason.imp (fun h => ?_) fun h => ?_
    · subst h
      exact hscope
    · subst h
      exact hscope

end Estimate

/-! ### Candidates -/

section Candidates

/-- A mapping whose times pydantic reads, but one of which leaves the range of years in UTC. -/
def Overflows (env : Environment) : Candidate → Prop
  | .mapping m =>
      let fields := env.fields (m.filter fun member => member.1 ≠ "idempotency_key" ∧ member.1 ≠ "query_id")
      (∃ stamp, fields.earliest_utc = some stamp ∧ OutOfRange stamp) ∨
        ∃ stamp, fields.latest_utc = some stamp ∧ OutOfRange stamp
  | _ => False

theorem utc_field_cases (stamp : Option Stamp) :
    ((∃ s, stamp = some s ∧ OutOfRange s) ∧ utc_field stamp = .error .overflow_error) ∨
      ¬(∃ s, stamp = some s ∧ OutOfRange s) ∧ Succeeds (utc_field stamp) := by
  cases stamp with
  | none => exact .inr ⟨fun ⟨_, h, _⟩ => (by cases h), succeeds_ok _⟩
  | some stamp =>
      obtain ⟨wall, utcoffset⟩ := stamp
      rw [utc_field, ensure_utc, ReportContent.utc]
      cases utcoffset with
      | none =>
          refine .inr ⟨fun ⟨s, h, offset, hoffset, _⟩ => ?_, succeeds_ok _⟩
          cases h
          cases hoffset
      | some utcoffset =>
          dsimp only
          cases hrange : inRange (wall - utcoffset) with
          | true =>
              refine .inr ⟨fun ⟨s, h, offset, hoffset, hout⟩ => ?_, succeeds_ok _⟩
              cases h
              cases hoffset
              rw [hrange] at hout
              cases hout
          | false => exact .inl ⟨⟨_, rfl, utcoffset, rfl, hrange⟩, rfl⟩

/-- A candidate overflows, is accepted, or is refused as the module promises. -/
theorem coerce_proposal_cases (raw : Candidate) :
    (Overflows env raw ∧ coerce_proposal env raw = .error .overflow_error) ∨
      ¬Overflows env raw ∧ Raises (·.isStrategyError) (coerce_proposal env raw) := by
  cases raw with
  | proposal proposal => exact .inr ⟨not_false, .ok _⟩
  | other => exact .inr ⟨not_false, .error rfl⟩
  | mapping m =>
      rw [coerce_proposal, Overflows]
      generalize m.filter (fun member => member.1 ≠ "idempotency_key" ∧ member.1 ≠ "query_id") = payload
      rw [model_validate]
      refine (utc_field_cases (env.fields payload).earliest_utc).elim (fun ⟨hout, h⟩ => ?_) fun ⟨hin, h⟩ => ?_
      · refine .inl ⟨.inl hout, ?_⟩
        rw [h]
        rfl
      · obtain ⟨earliest, hearliest⟩ := h
        rw [hearliest, ok_bind]
        refine (utc_field_cases (env.fields payload).latest_utc).elim (fun ⟨hout, h⟩ => ?_) fun ⟨hin', h⟩ => ?_
        · refine .inl ⟨.inr hout, ?_⟩
          rw [h]
          rfl
        · obtain ⟨latest, hlatest⟩ := h
          refine .inr ⟨fun h => h.elim hin hin', ?_⟩
          rw [hlatest, ok_bind]
          refine Raises.bind ?_ fun validated _ => ?_
          · split
            · dsimp only
              split
              · exact .pure _
              · split <;> exact .pure _
            · exact .pure _
          · split
            · exact .pure _
            · exact .error rfl

variable {hunt_id : Text}

theorem identity_eq_ok (hhunt : strip hunt_id ≠ []) {raw : Candidate} :
    Succeeds (identity env hunt_id raw) ↔ Succeeds (coerce_proposal env raw) := by
  rw [identity, succeeds_bind (P := True) fun proposal _ => ?_, and_true]
  rw [candidate_id, if_neg hhunt]
  exact iff_of_true (succeeds_ok _) trivial

theorem error_eq_error {α β : Type} {e e' : Raised} :
    (Except.error e : Except Raised α) = .error e' ↔ (Except.error e : Except Raised β) = .error e' := by
  constructor <;>
  · intro h
    cases h
    rfl

/-- The loop of normalisation stops at the first candidate that is not accepted. -/
theorem normalize_error {seen : List Text} {index : Nat} {proposals : List Candidate} (e : Raised) :
    normalize env hunt_id seen index proposals = .error e ↔
      ∃ pre raw post, proposals = pre ++ raw :: post ∧ (∀ r ∈ pre, Succeeds (identity env hunt_id r)) ∧
        identify env hunt_id (index + pre.length) raw = .error e := by
  induction proposals generalizing seen index with
  | nil =>
      refine iff_of_false ?_ fun hfails => ?_
      · intro h
        cases h
      · obtain ⟨pre, raw, post, h, _⟩ := hfails
        cases pre <;> cases h
  | cons raw proposals ih =>
      rw [normalize]
      have hsplit : (∃ pre raw' post, raw :: proposals = pre ++ raw' :: post ∧
          (∀ r ∈ pre, Succeeds (identity env hunt_id r)) ∧ identify env hunt_id (index + pre.length) raw' = .error e) ↔
          identify env hunt_id index raw = .error e ∨ Succeeds (identity env hunt_id raw) ∧
            ∃ pre raw' post, proposals = pre ++ raw' :: post ∧ (∀ r ∈ pre, Succeeds (identity env hunt_id r)) ∧
              identify env hunt_id (index + 1 + pre.length) raw' = .error e := by
        constructor
        · rintro ⟨pre, raw', post, h, hpre, herror⟩
          cases pre with
          | nil =>
              cases h
              exact .inl herror
          | cons r pre =>
              cases h
              rw [List.forall_mem_cons] at hpre
              refine .inr ⟨hpre.1, pre, raw', post, rfl, hpre.2, ?_⟩
              rwa [Nat.add_right_comm, Nat.add_assoc]
        · intro h
          refine h.elim (fun h => ⟨[], raw, proposals, rfl, fun _ hr => absurd hr List.not_mem_nil, h⟩) fun h => ?_
          obtain ⟨hraw, pre, raw', post, h, hpre, herror⟩ := h
          refine ⟨raw :: pre, raw', post, by rw [h, List.cons_append], List.forall_mem_cons.mpr ⟨hraw, hpre⟩, ?_⟩
          rwa [Nat.add_right_comm, Nat.add_assoc] at herror
      rw [hsplit]
      cases hidentify : identify env hunt_id index raw with
      | error e' =>
          have hnot : ¬Succeeds (identity env hunt_id raw) := by
            rintro ⟨entry, h⟩
            rw [identify_eq_ok.mpr h] at hidentify
            cases hidentify
          rw [error_bind]
          exact ⟨fun h => .inl (error_eq_error.mp h), fun h => h.elim error_eq_error.mp fun h => absurd h.1 hnot⟩
      | ok entry =>
          have hok : Succeeds (identity env hunt_id raw) := ⟨entry, identify_eq_ok.mp hidentify⟩
          have herror : ∀ {α β : Type} {x : Except Raised α} {f : α → β},
              (x >>= fun a => pure (f a)) = .error e ↔ x = .error e := by
            intro α β x f
            cases x with
            | error e' => exact error_eq_error
            | ok a => exact iff_of_false (fun h => by cases h) fun h => by cases h
          have hrest : ∀ seen', normalize env hunt_id seen' (index + 1) proposals = .error e ↔ (Except.ok entry : Except Raised _) = .error e ∨
              Succeeds (identity env hunt_id raw) ∧ ∃ pre raw' post, proposals = pre ++ raw' :: post ∧
                (∀ r ∈ pre, Succeeds (identity env hunt_id r)) ∧
                identify env hunt_id (index + 1 + pre.length) raw' = .error e := by
            intro seen'
            rw [ih]
            exact ⟨fun h => .inr ⟨hok, h⟩, fun h => h.elim (fun h => by cases h) And.right⟩
          rw [ok_bind]
          obtain ⟨proposal, cid⟩ := entry
          dsimp only
          split
          · exact herror.trans (hrest seen)
          · exact herror.trans (hrest (cid :: seen))

end Candidates

/-! ### Assessment -/

section Assess

variable {c : Context} {request : Request} {plan_order : List Text} {open_questions : Option (List Text)}
  {proposal : Proposal} {cid : Text}

/-- The loop fails at a candidate: it is for an open question of the plan, and the policy raises, or allows it for a
scope that gives times or with a history that fails. -/
def Fatal (env : Environment) (c : Context) (plan_order : List Text) (open_questions : Option (List Text))
    (proposal : Proposal) : Prop :=
  proposal.question_id ∈ plan_order ∧ (∀ ids, open_questions = some ids → proposal.question_id ∈ ids) ∧
    (¬Validates env c open_questions proposal ∨
      Allowed env c open_questions proposal ∧ (¬ScopeReady c.approved_scope ∨ HistoryFails c))

theorem succeeds_assess (hhunt : strip c.hunt_id ≠ []) (hjson : JsonInputs c) :
    Succeeds (assess env c request plan_order open_questions proposal cid) ↔
      ¬Fatal env c plan_order open_questions proposal := by
  rw [assess, Fatal]
  by_cases hplan : proposal.question_id ∈ plan_order
  · rw [if_neg (not_not.mpr hplan)]
    by_cases hopen : ∀ ids, open_questions = some ids → proposal.question_id ∈ ids
    · have hany : ¬open_questions.any (fun ids => decide (proposal.question_id ∉ ids)) = true := by
        cases open_questions with
        | none => exact Bool.false_ne_true
        | some ids => simp [hopen ids rfl]
      rw [if_neg hany]
      simp only [hplan, true_and]
      have hand : ∀ P : Prop, (∀ ids, open_questions = some ids → proposal.question_id ∈ ids) ∧ P ↔ P :=
        fun P => and_iff_right hopen
      rw [hand]
      cases hpolicy : c.policy with
      | none =>
          refine iff_of_true (succeeds_ok _) fun h => ?_
          refine h.elim (fun h => h fun policy heq => ?_) fun h => ?_
          · rw [hpolicy] at heq
            cases heq
          · obtain ⟨⟨policy, heq, _⟩, _⟩ := h
            rw [hpolicy] at heq
            cases heq
      | some policy =>
          dsimp only
          cases hvalidate : validate env policy proposal open_questions with
          | error e =>
              refine iff_of_false (not_succeeds_error _) (not_not.mpr (.inl fun h => ?_))
              obtain ⟨result, hresult⟩ := succeeds_validate.mpr (h policy hpolicy)
              rw [hresult] at hvalidate
              cases hvalidate
          | ok result =>
              have hvalidates : Validates env c open_questions proposal := by
                intro policy' heq
                rw [hpolicy] at heq
                cases heq
                exact succeeds_validate.mp ⟨result, hvalidate⟩
              have hallowed : Allowed env c open_questions proposal ↔ result.allowed = true := by
                rw [← allows_iff hvalidate]
                constructor
                · rintro ⟨policy', heq, h⟩
                  rw [hpolicy] at heq
                  cases heq
                  exact h
                · exact fun h => ⟨policy, hpolicy, h⟩
              rw [ok_bind, hallowed, not_not.mpr hvalidates |> eq_false, false_or]
              cases hresult : result.allowed with
              | false => exact iff_of_true (succeeds_pure _) fun h => Bool.false_ne_true h.1
              | true =>
                  rw [if_neg (by simp), not_and]
                  obtain ⟨filters, hfilters⟩ := @succeeds_extract_filters env proposal
                  rw [hfilters, ok_bind]
                  have hestimate := @succeeds_estimate_selectivity env c open_questions proposal hhunt hjson
                  rw [hallowed, hresult] at hestimate
                  constructor
                  · rintro ⟨outcome, h⟩ _
                    obtain ⟨specificity, _, h⟩ := bind_eq_ok.mp h
                    obtain ⟨selectivity, hselectivity, _⟩ := bind_eq_ok.mp h
                    obtain ⟨-, hscope, hhistory⟩ := hestimate.mp ⟨selectivity, hselectivity⟩
                    exact fun h => h.elim (fun h => h hscope) fun h => hhistory ⟨rfl, h⟩
                  · intro h
                    have hor := h rfl
                    rw [not_or, not_not] at hor
                    obtain ⟨reason, -, hspecificity⟩ :=
                      @succeeds_scope_specificity proposal c.approved_scope filters hjson.scope hor.1
                    obtain ⟨selectivity, hselectivity⟩ := hestimate.mpr ⟨hvalidates, hor.1, fun h => hor.2 h.2⟩
                    rw [hspecificity, ok_bind, hselectivity, ok_bind]
                    dsimp only
                    rw [checked_of_wellScored (wellScored_provisional (scoreComponents_bounds (inBounds_none 15)
                      (estimate_bounds hselectivity)) (estimate_bounds hselectivity)) (Nat.succ_ne_zero 0)]
                    exact succeeds_ok _
    · refine iff_of_true ?_ fun h => hopen h.2.1
      have hany : open_questions.any (fun ids => decide (proposal.question_id ∉ ids)) = true := by
        cases open_questions with
        | none => exact absurd (fun _ h => by cases h) hopen
        | some ids => simpa using hopen
      rw [if_pos hany]
      exact succeeds_ok _
  · rw [if_pos hplan]
    exact iff_of_true (succeeds_ok _) fun h => hplan h.1

/-- A ranked candidate of JSON inputs has no score, and says why. -/
structure RankedRecorded (c : Context) (r : RankedQueryCandidate) : Prop where
  selectivity : Recorded c r.proposal r.selectivity
  score : r.score = none
  fallback : r.fallback_reason.isSome

theorem recorded_of_assess {r : RankedQueryCandidate} (hjson : JsonInputs c)
    (h : assess env c request plan_order open_questions proposal cid = .ok (.inr r)) : RankedRecorded c r := by
  rw [assess] at h
  split at h
  · cases h
  split at h
  · cases h
  split at h
  · cases h
  obtain ⟨validation, -, h⟩ := bind_eq_ok.mp h
  split at h
  · cases h
  obtain ⟨filters, -, h⟩ := bind_eq_ok.mp h
  obtain ⟨specificity, hspecificity, h⟩ := bind_eq_ok.mp h
  obtain ⟨selectivity, he, h⟩ := bind_eq_ok.mp h
  obtain ⟨ranked, hranked, h⟩ := bind_eq_ok.mp h
  have hscope := scope_specificity_bounds hspecificity
  have hcost := estimate_bounds he
  rw [checked_of_wellScored (wellScored_provisional (scoreComponents_bounds hscope hcost) hcost)
    (Nat.succ_ne_zero 0)] at hranked
  cases hranked
  cases h
  have hrecorded := recorded_of_estimate hjson he
  -- the scope's reason is among the reasons, so that there is no score
  have hmem : ∃ reason, reason ∈ unknownReasons c request open_questions
      (telemetry_confirmed proposal c.approved_scope c.discovery).2 specificity.2.1 selectivity := by
    exact hrecorded.scope.elim (fun h => ⟨_, List.mem_eraseDups.mpr (List.mem_append_left _ h)⟩) fun h =>
      ⟨_, List.mem_eraseDups.mpr (List.mem_append_left _ h)⟩
  obtain ⟨reason, hreason⟩ := hmem
  have hscore : ∀ components, scoreOf (unknownReasons c request open_questions
      (telemetry_confirmed proposal c.approved_scope c.discovery).2 specificity.2.1 selectivity) components = none := by
    intro components
    rw [scoreOf, List.isEmpty_eq_false_iff.mpr (List.ne_nil_of_mem hreason)]
    rfl
  refine ⟨hrecorded, hscore _, ?_⟩
  rw [provisional, hscore]
  rfl

end Assess

/-! ### Totality -/

/-- A computation returns a result that records what could not be used, or raises the exception that the module
promises. -/
def Handled {α : Type} (Records : α → Prop) (x : Except Raised α) : Prop :=
  (∃ a, x = .ok a ∧ Records a) ∨ ∃ e, x = .error e ∧ e.isStrategyError = true

/-- Where nothing promised is raised, only a result is handled. -/
theorem handled_iff_succeeds {α : Type} {Records : α → Prop} {x : Except Raised α} (hx : Raises Raised.foreign x)
    (hrecords : ∀ a, x = .ok a → Records a) : Handled Records x ↔ Succeeds x := by
  constructor
  · intro h
    refine h.elim (fun ⟨a, ha, _⟩ => ⟨a, ha⟩) fun ⟨e, he, hstrategy⟩ => ?_
    have hforeign := hx e he
    cases e <;> first | exact absurd hforeign not_false | cases hstrategy
  · intro ⟨a, ha⟩
    exact .inl ⟨a, ha, hrecords a ha⟩

/-- An estimate fails: for a hunt with an identity, the policy raises, the scope gives times, or the history of an
allowed candidate fails. -/
def EstimateFails (env : Environment) (c : Context) (open_question_ids : Option (List Text)) (proposal : Proposal) :
    Prop :=
  strip c.hunt_id ≠ [] ∧ (¬Validates env c open_question_ids proposal ∨ ¬ScopeReady c.approved_scope ∨
    Allowed env c open_question_ids proposal ∧ HistoryFails c)

theorem estimate_handled_iff {c : Context} {open_question_ids : Option (List Text)} {proposal : Proposal}
    (hjson : JsonInputs c) :
    Handled (Recorded c proposal) (estimate_selectivity env c open_question_ids proposal) ↔
      ¬EstimateFails env c open_question_ids proposal := by
  rw [EstimateFails]
  by_cases hhunt : strip c.hunt_id = []
  · refine iff_of_true (.inr ⟨.strategy_error "hunt_id must be non-empty" "missing_hunt_id", ?_, rfl⟩) fun h => h.1 hhunt
    rw [estimate_selectivity, candidate_id, if_pos hhunt]
    rfl
  · rw [handled_iff_succeeds (raises_estimate_selectivity hhunt _ _) fun _ => recorded_of_estimate hjson,
      succeeds_estimate_selectivity hhunt hjson]
    tauto

/-- A ranking fails: its request passes the checks, and the first candidate that is not accepted overflows, or all are
accepted and the loop fails at one with a new identity. -/
def RankingFails (env : Environment) (c : Context) (request : Request) (proposals : List Candidate) : Prop :=
  ∃ plan_order open_questions, checkRequest c request proposals = .ok (plan_order, open_questions) ∧
    ((∃ pre raw post, proposals = pre ++ raw :: post ∧ (∀ r ∈ pre, Succeeds (coerce_proposal env r)) ∧
        Overflows env raw) ∨
      ∃ entries, proposals.mapM (identity env c.hunt_id) = .ok entries ∧
        ∃ entry ∈ Distinct.kept Prod.snd entries, Fatal env c plan_order open_questions entry.2.1)

theorem ranking_handled_iff {c : Context} {request : Request} {proposals : List Candidate} (hjson : JsonInputs c) :
    Handled (fun result => ∀ r ∈ result.ranked, RankedRecorded c r) (rank_query_candidates env c request proposals) ↔
      ¬RankingFails env c request proposals := by
  rw [rank_query_candidates, RankingFails]
  cases hchecked : checkRequest c request proposals with
  | error e =>
      refine iff_of_true (.inr ⟨e, rfl, raises_checkRequest c request proposals e hchecked⟩) ?_
      rintro ⟨_, _, h, _⟩
      cases h
  | ok checked =>
      obtain ⟨plan_order, open_questions⟩ := checked
      have hhunt := hunt_of_checkRequest hchecked
      rw [ok_bind]
      dsimp only
      -- a candidate that overflows ends the normalisation as a fault
      have hoverflow : ∀ pre raw post, proposals = pre ++ raw :: post → (∀ r ∈ pre, Succeeds (coerce_proposal env r)) →
          Overflows env raw → normalize env c.hunt_id [] 0 proposals = .error .overflow_error := by
        intro pre raw post hproposals hpre hraw
        refine (normalize_error _).mpr ⟨pre, raw, post, hproposals, fun r hr => (identity_eq_ok hhunt).mpr (hpre r hr), ?_⟩
        refine (coerce_proposal_cases raw).elim (fun h => ?_) fun h => absurd hraw h.1
        rw [identify, identity, h.2]
        rfl
      cases hnormalized : normalize env c.hunt_id [] 0 proposals with
      | error e =>
          obtain ⟨pre, raw, post, hproposals, hpre, hraw⟩ := (normalize_error e).mp hnormalized
          refine (@coerce_proposal_cases env raw).elim (fun hover => ?_) fun hunder => ?_
          · obtain ⟨hout, hcoerce⟩ := hover
            rw [identify, identity, hcoerce] at hraw
            cases hraw
            refine iff_of_false (fun h => ?_) (not_not.mpr ⟨_, _, rfl, .inl ⟨pre, raw, post, hproposals, fun r hr =>
              (identity_eq_ok hhunt).mp (hpre r hr), hout⟩⟩)
            refine h.elim (fun h => ?_) fun h => ?_
            · obtain ⟨_, h, _⟩ := h
              cases h
            · obtain ⟨e, h, hstrategy⟩ := h
              cases h
              cases hstrategy
          · obtain ⟨hin, hcoerce⟩ := hunder
            have hstrategy : e.isStrategyError = true := by
              cases hproposal : coerce_proposal env raw with
              | ok proposal =>
                  obtain ⟨entry, hentry⟩ := (identity_eq_ok hhunt).mpr ⟨proposal, hproposal⟩
                  rw [identify_eq_ok.mpr hentry] at hraw
                  cases hraw
              | error e' =>
                  have he' := hcoerce e' hproposal
                  rw [identify, identity, hproposal, error_bind] at hraw
                  cases e' <;> first | (cases hraw; rfl) | cases he'
            refine iff_of_true (.inr ⟨e, rfl, hstrategy⟩) fun hfails => ?_
            obtain ⟨plan, opens, _, h⟩ := hfails
            refine h.elim (fun h => ?_) fun h => ?_
            · obtain ⟨pre, raw, post, hproposals, hpre, hraw⟩ := h
              rw [hoverflow pre raw post hproposals hpre hraw] at hnormalized
              cases hnormalized
              cases hstrategy
            · obtain ⟨entries, hentries, _⟩ := h
              rw [normalize_eq_ok.mpr ⟨entries, hentries, rfl, rfl⟩] at hnormalized
              cases hnormalized
      | ok normalized =>
          obtain ⟨entries, hentries, hsplit, -⟩ := normalize_eq_ok.mp hnormalized
          have hkept : normalized.1 = Distinct.kept Prod.snd entries := hsplit
          rw [ok_bind]
          have hloop : Succeeds (normalized.1.mapM (judge env c request plan_order open_questions)) ↔
              ∀ entry ∈ normalized.1, ¬Fatal env c plan_order open_questions entry.2.1 := by
            rw [succeeds_mapM]
            exact forall₂_congr fun entry _ => succeeds_map.trans (succeeds_assess hhunt hjson)
          rw [handled_iff_succeeds, succeeds_bind (P := True) fun judged hjudged => ?_, and_true, hloop]
          · constructor
            · rintro h ⟨plan, opens, heq, hfails⟩
              cases heq
              refine hfails.elim (fun hfails => ?_) fun hfails => ?_
              · obtain ⟨pre, raw, post, hproposals, hpre, hraw⟩ := hfails
                rw [hoverflow pre raw post hproposals hpre hraw] at hnormalized
                cases hnormalized
              · obtain ⟨entries', hentries', entry, hentry, hfatal⟩ := hfails
                rw [hentries] at hentries'
                cases hentries'
                exact h entry (hkept ▸ hentry) hfatal
            · exact fun h entry hentry hfatal =>
                h ⟨_, _, rfl, .inr ⟨entries, hentries, entry, hkept ▸ hentry, hfatal⟩⟩
          · rw [succeeds_assignRanks hjudged]
            exact iff_of_true (succeeds_ok _) trivial
          · refine Raises.bind (.mapM fun entry _ => (raises_assess hhunt).map) fun judged hjudged => ?_
            rw [succeeds_assignRanks hjudged]
            exact .pure _
          · intro result hresult r hr
            obtain ⟨judged, hjudged, hresult⟩ := bind_eq_ok.mp hresult
            rw [succeeds_assignRanks hjudged] at hresult
            cases hresult
            obtain ⟨⟨ranked, rank⟩, hranked, rfl⟩ := List.mem_map.mp hr
            obtain ⟨entry, -, hentry⟩ := assessed hjudged
              ((Distinct.sortBy_perm _).mem_iff.mp (List.fst_mem_of_mem_zipIdx hranked))
            have hrecorded := recorded_of_assess hjson hentry
            exact ⟨hrecorded.selectivity, hrecorded.score, hrecorded.fallback⟩

/-- Over mappings of JSON values, estimates and rankings are handled unless they fail as described. -/
theorem query_strategy_handled_iff (env : Environment) (c : Context) (hjson : JsonInputs c) :
    (∀ open_question_ids proposal,
      Handled (Recorded c proposal) (estimate_selectivity env c open_question_ids proposal) ↔
        ¬EstimateFails env c open_question_ids proposal) ∧
    ∀ request proposals,
      Handled (fun result => ∀ r ∈ result.ranked, RankedRecorded c r)
          (rank_query_candidates env c request proposals) ↔
        ¬RankingFails env c request proposals :=
  ⟨fun _ _ => estimate_handled_iff hjson, fun _ _ => ranking_handled_iff hjson⟩

/-- The sample request over a scope. -/
def jsonContext (scope : Mapping) : Context := { sampleContext with approved_scope := some scope }

/-- The sample scope as JSON would give it: its times are texts. -/
def textScope : Mapping :=
  [("earliest_utc", .json (.string "2026-01-01T00:00:00Z")), ("latest_utc", .json (.string "2026-01-01T01:00:00Z")),
    ("indexes", .json (.array [.string "main"])), ("sourcetypes", .json (.array [.string "a"]))]

theorem jsonInputs_of_scope {scope : Mapping} (h : JsonOnly scope) : JsonInputs (jsonContext scope) where
  scope m hm := by
    cases hm
    exact h
  history items hitems := by
    cases hitems
    nofun

theorem jsonOnly_textScope : JsonOnly textScope := by
  intro member hmember
  simp only [textScope, List.mem_cons, List.not_mem_nil, or_false] at hmember
  rcases hmember with rfl | rfl | rfl | rfl <;> exact ⟨_, rfl⟩

/-- Times that are texts raise an `AttributeError`, in an estimate and in a ranking. -/
theorem text_times_raise :
    JsonInputs (jsonContext textScope) ∧
      estimate_selectivity plainEnvironment (jsonContext textScope) none (sampleProposal "") =
        .error .attribute_error ∧
      rank_query_candidates plainEnvironment (jsonContext textScope) sampleRequest [.proposal (sampleProposal "")] =
        .error .attribute_error := by
  have hestimate : estimate_selectivity plainEnvironment (jsonContext textScope) none (sampleProposal "") =
      .error .attribute_error := by decide
  have hraised : (match rank_query_candidates plainEnvironment (jsonContext textScope) sampleRequest
      [.proposal (sampleProposal "")] with
    | .ok _ => none
    | .error e => some e) = some .attribute_error := by decide
  refine ⟨jsonInputs_of_scope jsonOnly_textScope, hestimate, ?_⟩
  split at hraised
  · cases hraised
  · rename_i e he
    cases hraised
    exact he

/-- A scope with such times is not handled, and one without times is. -/
theorem query_strategy_handled_sample :
    ¬Handled (Recorded (jsonContext textScope) (sampleProposal ""))
        (estimate_selectivity plainEnvironment (jsonContext textScope) none (sampleProposal "")) ∧
      Handled (Recorded (jsonContext []) (sampleProposal ""))
        (estimate_selectivity plainEnvironment (jsonContext []) none (sampleProposal "")) := by
  constructor
  · rw [(query_strategy_handled_iff plainEnvironment _ (jsonInputs_of_scope jsonOnly_textScope)).1, not_not]
    refine ⟨by decide, .inr (.inl fun h => h textScope rfl ?_)⟩
    exact ⟨rfl, rfl, rfl, rfl⟩
  · rw [(query_strategy_handled_iff plainEnvironment _ 
      (jsonInputs_of_scope fun _ h => absurd h List.not_mem_nil)).1]
    intro ⟨_, hfails⟩
    refine hfails.elim (fun h => h ?_) fun h => h.elim (fun h => h ?_) fun ⟨_, now, hnow, h⟩ => ?_
    · intro policy hpolicy
      cases hpolicy
      have hvalidate : ((Spl.singleSourcePolicy ["host".toList]).validate Spl.foldedLetters
          plainEnvironment.cache_key (sampleProposal "").toQueryProposal none).toBool = true := by decide
      exact exists_of_toBool hvalidate
    · intro m hm hgiven
      cases hm
      exact Bool.false_ne_true hgiven.1
    · cases hnow
      refine h.elim (fun h => ?_) fun ⟨_, h, _⟩ => absurd h List.not_mem_nil
      exact absurd (h 0 rfl) (by decide)

end QueryStrategy

end ThreatHunting
