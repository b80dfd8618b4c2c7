import ThreatHunting.Domain.QueryStrategy
import ThreatHunting.Lib.RoundRobin

/-!
# ThreatHunting.Domain.QueryRanking

What a ranking of query candidates is. Every score keeps the bounds that the records check, so that none of
these checks ever refuses; every position of the input is ranked, rejected or a duplicate, and only one of these;
and the ranked list depends on which candidates there are, not on their order.
-/

namespace ThreatHunting

namespace QueryStrategy

open Fallible
open Spl (Time SPLPolicy QueryValidationResult)

/-! ### Bounds -/

theorem clamp_bounds {α : Type} [LinearOrder α] {minimum maximum : α} (h : minimum ≤ maximum) (value : α) :
    minimum ≤ clamp value minimum maximum ∧ clamp value minimum maximum ≤ maximum :=
  ⟨le_min h (le_max_left _ _), min_le_left _ _⟩

theorem inBounds_some {n : Int} {maximum : Nat} : inBounds (some n) maximum = true ↔ 0 ≤ n ∧ n ≤ maximum := by
  simp [inBounds]

@[simp] theorem inBounds_none (maximum : Nat) : inBounds none maximum = true := rfl

theorem inBounds_clamp (n : Int) (maximum : Nat) : inBounds (some (clamp n 0 maximum)) maximum = true :=
  inBounds_some.mpr (clamp_bounds (Int.natCast_nonneg maximum) n)

theorem round_half_up_mono {p q : ℚ} (h : p ≤ q) : round_half_up p ≤ round_half_up q :=
  Int.floor_le_floor (by linarith)

theorem round_half_up_intCast (n : Int) : round_half_up n = n := by
  rw [round_half_up, Int.floor_intCast_add, show ⌊(1 / 2 : ℚ)⌋ = 0 from by norm_num, add_zero]

/-- A part of a known cost gives points between none and all. -/
theorem selectivity_points {cost : Int} (h : inBounds (some cost) 100 = true) :
    inBounds (some (round_half_up (10 * (1 - cost / 100)))) 10 = true := by
  obtain ⟨hmin, hmax⟩ := inBounds_some.mp h
  have hmin' : (0 : ℚ) ≤ cost := by exact_mod_cast hmin
  have hmax' : (cost : ℚ) ≤ 100 := by exact_mod_cast hmax
  rw [inBounds_some]
  constructor
  · calc (0 : Int) = round_half_up (0 : Int) := (round_half_up_intCast 0).symm
      _ ≤ _ := round_half_up_mono (by push_cast; linarith)
  · calc round_half_up (10 * (1 - cost / 100)) ≤ round_half_up (10 : Int) :=
          round_half_up_mono (by push_cast; linarith)
      _ = (10 : Nat) := round_half_up_intCast 10

variable {env : Environment}

theorem scope_specificity_bounds {proposal : Proposal} {scope : Option Mapping} {filters : List (Text × Text)}
    {result : Option Int × Option String × Nat} (h : scope_specificity proposal scope filters = .ok result) :
    inBounds result.1 15 = true := by
  rw [scope_specificity] at h
  split at h
  · cases h
    rfl
  · obtain ⟨bounds, -, h⟩ := bind_eq_ok.mp h
    split at h
    · cases h
      rfl
    · dsimp only at h
      split at h
      · cases h
        rfl
      · cases h
        exact inBounds_clamp _ 15
  · cases h
    rfl

theorem selectivity_cost_bounds {proposal : Proposal} {scope : Option Mapping} {policy : Option SPLPolicy}
    {filters : List (Text × Text)} {matched_entities : Nat} {result : Option Int × List String × List String}
    (h : selectivity_cost proposal scope policy filters matched_entities = .ok result) :
    inBounds result.1 100 = true := by
  rw [selectivity_cost] at h
  split at h
  · cases h
    rfl
  · obtain ⟨bounds, -, h⟩ := bind_eq_ok.mp h
    split at h
    · cases h
      rfl
    · dsimp only at h
      split at h
      · cases h
        rfl
      · split at h
        · cases h
          rfl
        · split at h
          · cases h
            rfl
          · cases h
            exact inBounds_clamp _ 100
  · cases h
    rfl

theorem finalCost_bounds {policy : Option SPLPolicy} {observation : Option QueryHistoryObservation} {cost : Option Int}
    (h : inBounds cost 100 = true) : inBounds (finalCost policy observation cost) 100 = true := by
  unfold finalCost
  split
  · exact inBounds_clamp _ 100
  · exact h

theorem candidate_id_ne_nil {hunt_id cid : Text} {proposal : Proposal}
    (h : candidate_id env hunt_id proposal = .ok cid) : cid ≠ [] := by
  rw [candidate_id] at h
  split at h
  · cases h
  · cases h
    exact List.append_ne_nil_of_left_ne_nil (by decide) _

/-- What the steps of an estimate make up passes the checks of the record. -/
theorem estimateOf_checked {c : Context} {cid : Text} {validation : Option QueryValidationResult}
    {telemetry : Option Bool × Option String} {scope_reason : Option String}
    {cost : Option Int × List String × List String} {observation : Option QueryHistoryObservation} (hcid : cid ≠ [])
    (hcost : inBounds cost.1 100 = true) :
    (estimateOf c cid validation telemetry scope_reason cost observation).checked =
      .ok (estimateOf c cid validation telemetry scope_reason cost observation) := by
  have hbounds : inBounds (estimateOf c cid validation telemetry scope_reason cost observation).estimated_cost 100 =
      true := by
    unfold estimateOf
    dsimp only
    split
    · exact finalCost_bounds hcost
    · rfl
  have hbasis : (estimateOf c cid validation telemetry scope_reason cost observation).basis.Nodup :=
    RoundRobin.nodup_eraseDups _
  have hunknown : (estimateOf c cid validation telemetry scope_reason cost observation).unknown_reasons.Nodup :=
    RoundRobin.nodup_eraseDups _
  rw [SelectivityEstimate.checked, if_neg (by simpa [estimateOf] using hcid), if_neg (by simp [hbounds]),
    if_neg (not_not.mpr hbasis), if_neg (not_not.mpr hunknown)]

/-- The score of known components lies between none and all of their points. -/
theorem scoreOf_bounds {unknown_reasons : List String} {components : Component → Option Int}
    (h : ∀ name, inBounds (components name) name.maximum = true) :
    inBounds (scoreOf unknown_reasons components) 100 = true := by
  rw [scoreOf]
  split
  · cases hall : Component.all.mapM components with
    | none => rfl
    | some values =>
        -- every value lies within the bound of its component, and the bounds add up to 100
        simp only [Component.all, List.mapM_cons, List.mapM_nil, Option.bind_eq_bind, Option.bind_eq_some_iff,
          Option.pure_def, Option.some.injEq] at hall
        obtain ⟨a, ha, _, ⟨b, hb, _, ⟨d, hd, _, ⟨e, he, _, ⟨f, hf, _, ⟨g, hg, _, rfl, rfl⟩, rfl⟩, rfl⟩, rfl⟩, rfl⟩, rfl⟩ :=
          hall
        have ha' := inBounds_some.mp (ha ▸ h .unresolved_question)
        have hb' := inBounds_some.mp (hb ▸ h .approved_telemetry)
        have hd' := inBounds_some.mp (hd ▸ h .evidence_pivot)
        have he' := inBounds_some.mp (he ▸ h .scope_specificity)
        have hf' := inBounds_some.mp (hf ▸ h .selectivity)
        have hg' := inBounds_some.mp (hg ▸ h .not_already_answered)
        simp only [Component.maximum] at ha' hb' hd' he' hf' hg'
        rw [Option.map_some, inBounds_some]
        simp only [List.sum_cons, List.sum_nil]
        omega
  · rfl

/-! ### What is raised -/

/-- An exception that neither the module nor the checks of its own records raise. -/
def Raised.foreign : Raised → Prop
  | .strategy_error _ _ => False
  | .value_error message => message = "timestamp must include a timezone offset"
  | _ => True

/-- An exception of a ranking: the one the module promises, or a foreign one. -/
def Raised.allowed (e : Raised) : Prop := e.isStrategyError = true ∨ e.foreign

theorem raises_ensure_utc (value : Value) : Raises Raised.foreign (ensure_utc value) := by
  unfold ensure_utc
  split
  · split
    · exact .ok _
    · exact .error trivial
    · exact .error rfl
  · exact .error trivial

theorem raises_attempt {α : Type} {x : Except Raised α} (h : Raises Raised.foreign x) :
    Raises Raised.foreign (attempt x) := by
  cases x with
  | ok a => exact .ok _
  | error e =>
      rw [attempt]
      split
      · exact .ok _
      · exact .error (h e rfl)

theorem raises_validate (policy : SPLPolicy) (proposal : Proposal) (open_question_ids : Option (List Text)) :
    Raises Raised.foreign (validate env policy proposal open_question_ids) := by
  have hparse : ∀ message, policy.parseChecks env.db proposal.spl ≠ .error (.valueError message) := by
    intro message h
    rw [SPLPolicy.parseChecks] at h
    split at h
    · cases h
    · cases h
    · dsimp only at h
      split at h
      · cases h
      · cases h
      · split at h <;> cases h
  rw [validate]
  split
  · exact .ok _
  · rename_i message h
    rw [SPLPolicy.validate] at h
    cases hp : policy.parseChecks env.db proposal.spl with
    | ok p => rw [hp] at h; cases h
    | error e =>
        rw [hp] at h
        cases h
        exact absurd hp (hparse message)
  · exact .error trivial

theorem raises_extract_filters (proposal : Proposal) : Raises Raised.foreign (extract_filters env proposal) := by
  rw [extract_filters]
  split
  · exact .ok _
  · exact .error trivial
  · exact .ok _

theorem raises_scope_specificity (proposal : Proposal) (scope : Option Mapping) (filters : List (Text × Text)) :
    Raises Raised.foreign (scope_specificity proposal scope filters) := by
  rw [scope_specificity]
  split
  · exact .ok _
  · refine (raises_attempt ?_).bind fun bounds _ => ?_
    · exact (raises_ensure_utc _).bind fun _ _ => (raises_ensure_utc _).bind fun _ _ => .pure _
    · split
      · exact .pure _
      · dsimp only
        split <;> exact .pure _
  · exact .ok _

theorem raises_selectivity_cost (proposal : Proposal) (scope : Option Mapping) (policy : Option SPLPolicy)
    (filters : List (Text × Text)) (matched_entities : Nat) :
    Raises Raised.foreign (selectivity_cost proposal scope policy filters matched_entities) := by
  rw [selectivity_cost]
  split
  · exact .ok _
  · refine (raises_attempt ?_).bind fun bounds _ => ?_
    · exact (raises_ensure_utc _).bind fun _ _ => (raises_ensure_utc _).bind fun _ _ => .pure _
    · split
      · exact .pure _
      · dsimp only
        split
        · exact .pure _
        · split
          · exact .pure _
          · split <;> exact .pure _
  · exact .ok _

theorem raises_parse_history (item : HistoryItem) : Raises Raised.foreign (parse_history env item) := by
  cases item with
  | observation o => exact .ok _
  | other => exact .ok _
  | mapping m =>
      rw [parse_history]
      split
      · exact .ok _
      · split
        · exact .ok _
        · refine Raises.bind ?_ fun expiry _ => ?_
          · rw [expiry]
            split
            · exact .ok _
            · exact (raises_attempt (raises_ensure_utc _)).map
          · split
            · exact .pure _
            · exact .pure _

theorem raises_isEligible (cache_key normalized_spl : Text) (current : Time) (o : QueryHistoryObservation) :
    Raises Raised.foreign (isEligible cache_key normalized_spl current o) := by
  rw [isEligible]
  split
  · exact .ok _
  split
  · exact .ok _
  split
  · exact .ok _
  split
  · exact .ok _
  · refine Raises.bind ?_ fun isExpired _ => ?_
    · rw [expired]
      split
      · exact .error trivial
      · exact .ok _
    · split
      · exact .pure _
      · split <;> exact .pure _

theorem raises_eligible_history (history : List HistoryItem) (cache_key : Option Text) (normalized_spl : Text)
    (now : Option ReportContent.Stamp) : Raises Raised.foreign (eligible_history env history cache_key normalized_spl now) := by
  unfold eligible_history
  split
  · refine (raises_ensure_utc _).bind fun current _ => Raises.bind (.mapM fun item _ => ?_) fun _ _ => .pure _
    rw [eligible]
    refine (raises_parse_history item).bind fun o _ => ?_
    split
    · exact .pure _
    · exact (raises_isEligible _ _ _ _).bind fun _ _ => .pure _
  · exact .ok _

/-- No estimate is refused by the checks of its record. -/
theorem raises_estimate_selectivity {c : Context} (hhunt : strip c.hunt_id ≠ [])
    (open_question_ids : Option (List Text)) (proposal : Proposal) :
    Raises Raised.foreign (estimate_selectivity env c open_question_ids proposal) := by
  have hcandidate : Raises Raised.foreign (candidate_id env c.hunt_id proposal) := by
    rw [candidate_id, if_neg hhunt]
    exact .ok _
  rw [estimate_selectivity]
  refine hcandidate.bind fun cid hcid => Raises.bind ?_ fun validation _ =>
    (raises_extract_filters _).bind fun filters _ => (raises_scope_specificity _ _ _).bind fun specificity _ =>
      (raises_selectivity_cost _ _ _ _ _).bind fun cost hcost => (raises_eligible_history _ _ _ _).bind fun o _ => ?_
  · cases c.policy with
    | none => exact .pure _
    | some policy => exact (raises_validate policy proposal open_question_ids).bind fun _ _ => .pure _
  · rw [estimateOf_checked (candidate_id_ne_nil hcid) (selectivity_cost_bounds hcost)]
    exact .ok _

/-! ### Scores -/

theorem estimate_bounds {c : Context} {open_question_ids : Option (List Text)} {proposal : Proposal}
    {e : SelectivityEstimate} (h : estimate_selectivity env c open_question_ids proposal = .ok e) :
    inBounds e.estimated_cost 100 = true := by
  have hchecked : ∀ {e' : SelectivityEstimate}, e'.checked = .ok e → inBounds e.estimated_cost 100 = true := by
    intro e' h
    rw [SelectivityEstimate.checked] at h
    split at h
    · cases h
    split at h
    · cases h
    · rename_i hcost
      split at h
      · cases h
      split at h
      · cases h
      · cases h
        simpa using hcost
  rw [estimate_selectivity] at h
  obtain ⟨_, _, h⟩ := bind_eq_ok.mp h
  obtain ⟨_, _, h⟩ := bind_eq_ok.mp h
  obtain ⟨_, _, h⟩ := bind_eq_ok.mp h
  obtain ⟨_, _, h⟩ := bind_eq_ok.mp h
  obtain ⟨_, _, h⟩ := bind_eq_ok.mp h
  obtain ⟨_, _, h⟩ := bind_eq_ok.mp h
  exact hchecked h

/-- The score of a candidate and what it is made of are within their bounds. -/
structure WellScored (c : RankedQueryCandidate) : Prop where
  score : inBounds c.score 100 = true
  components : ∀ name, inBounds (c.score_components name) name.maximum = true
  cost : inBounds c.selectivity.estimated_cost 100 = true
  /-- A score is the sum of all components. -/
  total : ∀ n, c.score = some n → ∃ values, Component.all.mapM c.score_components = some values ∧ n = values.sum

theorem scoreComponents_bounds {telemetry : Option Bool} {isOpen : Option Unit} {pivots : Option (List Pivot)}
    {filters : List (Text × Text)} {scope : Option Int} {history : Option (List HistoryItem)}
    {selectivity : SelectivityEstimate} (hscope : inBounds scope 15 = true)
    (hcost : inBounds selectivity.estimated_cost 100 = true) (name : Component) :
    inBounds (scoreComponents telemetry isOpen pivots filters scope history selectivity name) name.maximum = true := by
  cases name with
  | unresolved_question => cases isOpen <;> rfl
  | approved_telemetry =>
      rw [scoreComponents]
      split <;> rfl
  | evidence_pivot =>
      cases pivots with
      | none => rfl
      | some pivots =>
          rw [scoreComponents, Option.map_some]
          split <;> rfl
  | scope_specificity => exact hscope
  | selectivity =>
      rw [scoreComponents]
      cases hestimated : selectivity.estimated_cost with
      | none => rfl
      | some cost => exact selectivity_points (hestimated ▸ hcost)
  | not_already_answered =>
      cases history with
      | none => rfl
      | some history =>
          rw [scoreComponents, Option.map_some]
          split <;> rfl

theorem wellScored_provisional {proposal : Proposal} {cid : Text} {position : Nat} {unknown_reasons : List String}
    {components : Component → Option Int} {selectivity : SelectivityEstimate}
    (hcomponents : ∀ name, inBounds (components name) name.maximum = true)
    (hcost : inBounds selectivity.estimated_cost 100 = true) :
    WellScored (provisional proposal cid position unknown_reasons components selectivity) where
  score := scoreOf_bounds hcomponents
  components := hcomponents
  cost := hcost
  total n hn := by
    change scoreOf unknown_reasons components = some n at hn
    change ∃ values, Component.all.mapM components = some values ∧ n = values.sum
    rw [scoreOf] at hn
    split at hn
    · obtain ⟨values, hvalues, hsum⟩ := Option.map_eq_some_iff.mp hn
      exact ⟨values, hvalues, hsum.symm⟩
    · cases hn

/-- Candidates within these bounds pass the checks of their record. -/
theorem checked_of_wellScored {c : RankedQueryCandidate} (h : WellScored c) (hrank : c.shadow_rank ≠ 0) :
    c.checked = .ok c := by
  have hfind : Component.all.find? (fun name => !inBounds (c.score_components name) name.maximum) = none := by
    rw [List.find?_eq_none]
    intro name _
    simp [h.components name]
  rw [RankedQueryCandidate.checked, if_neg hrank, if_neg (by simp [h.score]), hfind]

section Assess

variable {c : Context} {request : Request} {plan_order : List Text} {open_questions : Option (List Text)}
  {proposal : Proposal} {cid : Text}

theorem raises_assess (hhunt : strip c.hunt_id ≠ []) : Raises Raised.foreign (assess env c request plan_order open_questions proposal cid) := by
  rw [assess]
  split
  · exact .ok _
  split
  · exact .ok _
  split
  · exact .ok _
  refine (raises_validate _ _ _).bind fun validation _ => ?_
  split
  · exact .pure _
  · refine (raises_extract_filters _).bind fun filters _ => (raises_scope_specificity _ _ _).bind fun specificity hs =>
      (raises_estimate_selectivity hhunt _ _).bind fun selectivity he => ?_
    dsimp only
    rw [checked_of_wellScored (wellScored_provisional (scoreComponents_bounds (scope_specificity_bounds hs)
      (estimate_bounds he)) (estimate_bounds he)) (Nat.succ_ne_zero 0)]
    exact .pure _

/-- A candidate that is not rejected is ranked as itself, for a question of the plan. -/
theorem assess_ranked {r : RankedQueryCandidate}
    (h : assess env c request plan_order open_questions proposal cid = .ok (.inr r)) :
    r.candidate_id = cid ∧ r.proposal = proposal ∧ WellScored r ∧
      plan_order[r.approved_question_position]? = some proposal.question_id := by
  rw [assess] at h
  split at h
  · cases h
  rename_i hplan
  split at h
  · cases h
  split at h
  · cases h
  obtain ⟨validation, -, h⟩ := bind_eq_ok.mp h
  split at h
  · cases h
  obtain ⟨filters, -, h⟩ := bind_eq_ok.mp h
  obtain ⟨specificity, hs, h⟩ := bind_eq_ok.mp h
  obtain ⟨selectivity, he, h⟩ := bind_eq_ok.mp h
  obtain ⟨ranked, hranked, h⟩ := bind_eq_ok.mp h
  have hscope := scope_specificity_bounds hs
  have hcost := estimate_bounds he
  rw [checked_of_wellScored (wellScored_provisional (scoreComponents_bounds hscope hcost) hcost)
    (Nat.succ_ne_zero 0)] at hranked
  cases hranked
  cases h
  refine ⟨rfl, rfl, wellScored_provisional (scoreComponents_bounds hscope hcost) hcost, ?_⟩
  have hlt := List.idxOf_lt_length_of_mem (not_not.mp hplan)
  rw [provisional, List.getElem?_eq_getElem hlt, List.getElem_idxOf]

end Assess

/-! ### The loops -/

theorem identify_eq_ok {hunt_id : Text} {index : Nat} {raw : Candidate} {entry : Proposal × Text} :
    identify env hunt_id index raw = .ok entry ↔ identity env hunt_id raw = .ok entry := by
  rw [identify]
  split
  · rename_i heq
    rw [heq]
    constructor <;> nofun
  · rfl

/-- The loop of normalisation identifies every candidate and keeps those with a new identity. -/
theorem normalize_eq_ok {hunt_id : Text} {seen : List Text} {index : Nat} {proposals : List Candidate}
    {normalized : List (Nat × Proposal × Text)} {duplicates : List Text} :
    normalize env hunt_id seen index proposals = .ok (normalized, duplicates) ↔
      ∃ entries, proposals.mapM (identity env hunt_id) = .ok entries ∧
        normalized = (Distinct.split Prod.snd seen index entries).1 ∧
        duplicates = (Distinct.split Prod.snd seen index entries).2.map (·.2.2) := by
  induction proposals generalizing seen index normalized duplicates with
  | nil =>
      rw [normalize, List.mapM_nil]
      constructor
      · intro h
        cases h
        exact ⟨[], rfl, rfl, rfl⟩
      · rintro ⟨entries, h, hn, hd⟩
        cases h
        rw [hn, hd]
        rfl
  | cons raw proposals ih =>
      rw [normalize, List.mapM_cons]
      constructor
      · intro h
        obtain ⟨⟨proposal, cid⟩, hentry, h⟩ := bind_eq_ok.mp h
        rw [identify_eq_ok] at hentry
        dsimp only at h
        split at h
        · rename_i hseen
          obtain ⟨⟨n, d⟩, hrest, h⟩ := bind_eq_ok.mp h
          cases h
          obtain ⟨entries, hentries, rfl, rfl⟩ := ih.mp hrest
          refine ⟨(proposal, cid) :: entries, by rw [hentry, hentries]; rfl, ?_, ?_⟩ <;>
            rw [Distinct.split, if_pos hseen]
          rfl
        · rename_i hseen
          obtain ⟨⟨n, d⟩, hrest, h⟩ := bind_eq_ok.mp h
          cases h
          obtain ⟨entries, hentries, rfl, rfl⟩ := ih.mp hrest
          refine ⟨(proposal, cid) :: entries, by rw [hentry, hentries]; rfl, ?_, ?_⟩ <;>
            rw [Distinct.split, if_neg hseen]
      · rintro ⟨entries, h, hn, hd⟩
        obtain ⟨⟨proposal, cid⟩, hentry, h⟩ := bind_eq_ok.mp h
        obtain ⟨rest, hrest, h⟩ := bind_eq_ok.mp h
        cases h
        rw [identify_eq_ok.mpr hentry]
        by_cases hseen : cid ∈ seen
        · rw [Distinct.split, if_pos hseen] at hn hd
          rw [ok_bind]
          dsimp only
          rw [if_pos hseen, ih.mpr ⟨rest, hrest, rfl, rfl⟩, hn, hd]
          rfl
        · rw [Distinct.split, if_neg hseen] at hn hd
          rw [ok_bind]
          dsimp only
          rw [if_neg hseen, ih.mpr ⟨rest, hrest, rfl, rfl⟩, hn, hd]
          rfl

section Judge

variable {c : Context} {request : Request} {plan_order : List Text} {open_questions : Option (List Text)}

/-- What is judged of the normalised candidates: each is rejected at its position, or ranked. -/
theorem judge_eq_ok {entry : Nat × Proposal × Text} {judged : RejectedCandidate ⊕ RankedQueryCandidate}
    (h : judge env c request plan_order open_questions entry = .ok judged) :
    (∀ r, judged = .inl r → r.source_index = entry.1 ∧ r.candidate_id = entry.2.2) ∧
      ∀ r, judged = .inr r → assess env c request plan_order open_questions entry.2.1 entry.2.2 = .ok (.inr r) := by
  obtain ⟨outcome, houtcome, rfl⟩ := map_eq_ok.mp h
  cases outcome with
  | inl reason =>
      refine ⟨fun r hr => ?_, fun r hr => ?_⟩
      · cases hr
        exact ⟨rfl, rfl⟩
      · cases hr
  | inr ranked =>
      refine ⟨fun r hr => ?_, fun r hr => ?_⟩
      · cases hr
      · cases hr
        exact houtcome

/-- What is ranked does not depend on positions. -/
theorem mapM_judge (entries : List (Nat × Proposal × Text)) :
    (entries.mapM (judge env c request plan_order open_questions)).map (·.filterMap Sum.getRight?) =
      ((entries.map (·.2)).mapM fun e => assess env c request plan_order open_questions e.1 e.2).map
        (·.filterMap Sum.getRight?) := by
  induction entries with
  | nil => rfl
  | cons entry entries ih =>
      rw [List.map_cons, List.mapM_cons, List.mapM_cons, judge]
      revert ih
      generalize entries.mapM (judge env c request plan_order open_questions) = x
      generalize ((entries.map (·.2)).mapM fun e => assess env c request plan_order open_questions e.1 e.2) = y
      intro ih
      cases assess env c request plan_order open_questions entry.2.1 entry.2.2 with
      | error e => rfl
      | ok outcome =>
          cases x with
          | error e =>
              cases y with
              | error e' => exact congrArg Except.error (Except.error.inj ih)
              | ok bs => cases ih
          | ok as =>
              cases y with
              | error e' => cases ih
              | ok bs =>
                  have has := Except.ok.inj ih
                  cases outcome with
                  | inl reason => exact congrArg Except.ok has
                  | inr ranked => exact congrArg (fun l => Except.ok (ranked :: l)) has

/-- The rejected and the ranked, each by a place of its own, are the judged by theirs. -/
theorem perm_judged {f : RankedQueryCandidate → Nat} (judged : List (RejectedCandidate ⊕ RankedQueryCandidate)) :
    ((judged.filterMap Sum.getRight?).map f ++ (judged.filterMap Sum.getLeft?).map (·.source_index)).Perm
      (judged.map (Sum.elim (·.source_index) f)) := by
  induction judged with
  | nil => exact .refl _
  | cons j judged ih =>
      cases j with
      | inl r => exact List.perm_middle.trans (.cons _ ih)
      | inr r => exact .cons _ ih

end Judge

/-- A candidate with its final rank. -/
def withRank (c : RankedQueryCandidate × Nat) : RankedQueryCandidate := { c.1 with shadow_rank := c.2 }

/-- The final ranks are 1, 2, …; nothing else of the candidates changes. -/
theorem assignRanks_eq {sorted : List RankedQueryCandidate} (h : ∀ c ∈ sorted, WellScored c) :
    assignRanks sorted = .ok ((sorted.zipIdx 1).map withRank) := by
  have hall : ∀ {cs : List (RankedQueryCandidate × Nat)}, (∀ c ∈ cs, WellScored c.1 ∧ c.2 ≠ 0) →
      (cs.mapM fun c => (withRank c).checked) =
        .ok (cs.map withRank) := by
    intro cs
    induction cs with
    | nil => exact fun _ => rfl
    | cons c cs ih =>
        intro hcs
        obtain ⟨hc, hrank⟩ := hcs c List.mem_cons_self
        have hscored : WellScored (withRank c) := ⟨hc.score, hc.components, hc.cost, hc.total⟩
        rw [List.mapM_cons, ih fun c hc => hcs c (List.mem_cons_of_mem _ hc)]
        change (withRank c).checked >>= _ = _
        rw [checked_of_wellScored hscored hrank]
        rfl
  refine hall fun c hc => ⟨h c.1 (List.fst_mem_of_mem_zipIdx hc), ?_⟩
  have hle := List.le_snd_of_mem_zipIdx hc
  omega

/-! ### The ranking -/

/-- How a result divides the positions of candidates with the identities `ids`. -/
structure Partitions (ids : List Text) (result : QueryRankingResult) : Prop where
  /-- Every position is that of a ranked candidate, of a rejected one or of a duplicate, and it is so once. -/
  once : (result.ranked.map (fun c => Distinct.position ids c.candidate_id) ++ result.rejected.map (·.source_index)
    ++ Distinct.repeats ids).Perm (List.range ids.length)
  rejected_id : ∀ r ∈ result.rejected, ids[r.source_index]? = some r.candidate_id
  duplicates : result.duplicates_removed = (Distinct.repeats ids).filterMap (ids[·]?)

/-- A ranked list is in the order of its keys, which no two candidates share, and its candidates are numbered. -/
structure Ordered (plan_order : List Text) (ranked : List RankedQueryCandidate) : Prop where
  sorted : ranked.Pairwise fun a b => sortKey a < sortKey b
  ranks : ranked.map (·.shadow_rank) = List.range' 1 ranked.length
  positions : ∀ r ∈ ranked, plan_order[r.approved_question_position]? = some r.proposal.question_id
  scores : ∀ r ∈ ranked, WellScored r

theorem checkRequest_eq_ok {c : Context} {request : Request} {proposals : List Candidate} {plan_order : List Text}
    {open_questions : Option (List Text)} (h : checkRequest c request proposals = .ok (plan_order, open_questions)) :
    plan_order = strings request.approved_question_order := by
  rw [checkRequest] at h
  split at h
  · cases h
  split at h
  · cases h
  split at h
  · cases h
  split at h
  · cases h
  split at h
  · cases h
  · cases h
    rfl

theorem hunt_of_checkRequest {c : Context} {request : Request} {proposals : List Candidate}
    {checked : List Text × Option (List Text)} (h : checkRequest c request proposals = .ok checked) :
    strip c.hunt_id ≠ [] := by
  rw [checkRequest] at h
  split at h
  · cases h
  split at h
  · cases h
  split at h
  · cases h
  · assumption

theorem raises_checkRequest (c : Context) (request : Request) (proposals : List Candidate) :
    Raises (fun e => e.isStrategyError = true) (checkRequest c request proposals) := by
  rw [checkRequest]
  repeat' split
  all_goals first | exact .error rfl | exact .ok _

theorem raises_identify (hunt_id : Text) (index : Nat) (raw : Candidate) :
    Raises Raised.allowed (identify env hunt_id index raw) := by
  have hfield : ∀ stamp, Raises Raised.allowed (utc_field stamp) := by
    intro stamp
    cases stamp with
    | none => exact .ok _
    | some stamp => exact fun e h => .inr (raises_attempt (raises_ensure_utc _) e h)
  have hcoerce : Raises Raised.allowed (coerce_proposal env raw) := by
    cases raw with
    | proposal proposal => exact .ok _
    | other => exact .error (.inl rfl)
    | mapping m =>
        refine Raises.bind ?_ fun validated _ => ?_
        · refine (hfield _).bind fun earliest _ => (hfield _).bind fun latest _ => ?_
          split
          · dsimp only
            split
            · exact .pure _
            · split <;> exact .pure _
          · exact .pure _
        · split
          · exact .pure _
          · exact .error (.inl rfl)
  have hidentity : Raises Raised.allowed (identity env hunt_id raw) := by
    refine hcoerce.bind fun proposal _ => Raises.bind ?_ fun _ _ => .pure _
    rw [candidate_id]
    split
    · exact .error (.inl rfl)
    · exact .ok _
  rw [identify]
  split
  · exact .error (.inl rfl)
  · exact hidentity

theorem raises_normalize (hunt_id : Text) (seen : List Text) (index : Nat) (proposals : List Candidate) :
    Raises Raised.allowed (normalize env hunt_id seen index proposals) := by
  induction proposals generalizing seen index with
  | nil => exact .ok _
  | cons raw proposals ih =>
      rw [normalize]
      refine (raises_identify hunt_id index raw).bind fun entry _ => ?_
      dsimp only
      split
      · exact (ih _ _).bind fun _ _ => .pure _
      · exact (ih _ _).bind fun _ _ => .pure _

/-- What was judged can be ranked. -/
theorem succeeds_assignRanks {c : Context} {request : Request} {plan_order : List Text}
    {open_questions : Option (List Text)} {entries : List (Nat × Proposal × Text)}
    {judged : List (RejectedCandidate ⊕ RankedQueryCandidate)}
    (h : entries.mapM (judge env c request plan_order open_questions) = .ok judged) :
    assignRanks (Distinct.sortBy sortKey (judged.filterMap Sum.getRight?)) =
      .ok (((Distinct.sortBy sortKey (judged.filterMap Sum.getRight?)).zipIdx 1).map withRank) := by
  refine assignRanks_eq fun r hr => ?_
  rw [(Distinct.sortBy_perm _).mem_iff, List.mem_filterMap] at hr
  obtain ⟨outcome, houtcome, hright⟩ := hr
  obtain ⟨entry, -, hentry⟩ := (mem_of_mapM h).1 outcome houtcome
  cases outcome with
  | inl reason => cases hright
  | inr ranked =>
      cases hright
      exact (assess_ranked ((judge_eq_ok hentry).2 r rfl)).2.2.1

theorem raises_rank_query_candidates (c : Context) (request : Request) (proposals : List Candidate) :
    Raises Raised.allowed (rank_query_candidates env c request proposals) := by
  rw [rank_query_candidates]
  refine Raises.bind (fun e h => .inl (raises_checkRequest c request proposals e h)) fun checked hchecked =>
    (raises_normalize _ _ _ _).bind fun normalized _ => Raises.bind ?_ fun judged hjudged => ?_
  · refine .mapM fun entry _ => fun e h => .inr ?_
    exact (raises_assess (hunt_of_checkRequest hchecked)).map e h
  · rw [succeeds_assignRanks hjudged]
    exact .pure _

/-- The steps of a ranking that returns. -/
structure Run (env : Environment) (c : Context) (request : Request) (proposals : List Candidate)
    (result : QueryRankingResult) where
  open_questions : Option (List Text)
  entries : List (Proposal × Text)
  judged : List (RejectedCandidate ⊕ RankedQueryCandidate)
  checked : checkRequest c request proposals = .ok (strings request.approved_question_order, open_questions)
  identified : proposals.mapM (identity env c.hunt_id) = .ok entries
  judges : (Distinct.kept Prod.snd entries).mapM (judge env c request (strings request.approved_question_order)
    open_questions) = .ok judged
  rejected : result.rejected = judged.filterMap Sum.getLeft?
  duplicates : result.duplicates_removed = (Distinct.repeated Prod.snd entries).map (·.2.2)
  ranked : result.ranked = ((Distinct.sortBy sortKey (judged.filterMap Sum.getRight?)).zipIdx 1).map withRank

section Run

variable {c : Context} {request : Request} {proposals : List Candidate} {result : QueryRankingResult}

/-- What is ranked was assessed, as an entry that was kept. -/
theorem assessed {plan_order : List Text} {open_questions : Option (List Text)} {entries : List (Nat × Proposal × Text)}
    {judged : List (RejectedCandidate ⊕ RankedQueryCandidate)}
    (h : entries.mapM (judge env c request plan_order open_questions) = .ok judged) {r : RankedQueryCandidate}
    (hr : r ∈ judged.filterMap Sum.getRight?) :
    ∃ entry ∈ entries, assess env c request plan_order open_questions entry.2.1 entry.2.2 = .ok (.inr r) := by
  obtain ⟨outcome, houtcome, hright⟩ := List.mem_filterMap.mp hr
  obtain ⟨entry, hmem, hentry⟩ := (mem_of_mapM h).1 outcome houtcome
  cases outcome with
  | inl reason => cases hright
  | inr ranked =>
      cases hright
      exact ⟨entry, hmem, (judge_eq_ok hentry).2 r rfl⟩

/-- A ranking that returns went through these steps, and the steps make up what it returns. -/
theorem rank_eq_ok : rank_query_candidates env c request proposals = .ok result ↔
    Nonempty (Run env c request proposals result) := by
  rw [rank_query_candidates]
  constructor
  · intro h
    obtain ⟨⟨plan_order, open_questions⟩, hchecked, h⟩ := bind_eq_ok.mp h
    obtain ⟨⟨normalized, duplicates⟩, hnormalized, h⟩ := bind_eq_ok.mp h
    obtain ⟨judged, hjudged, h⟩ := bind_eq_ok.mp h
    obtain ⟨ranked, hranked, h⟩ := bind_eq_ok.mp h
    cases h
    have hplan := checkRequest_eq_ok hchecked
    subst hplan
    obtain ⟨entries, hentries, rfl, rfl⟩ := normalize_eq_ok.mp hnormalized
    rw [succeeds_assignRanks hjudged] at hranked
    exact ⟨⟨open_questions, entries, judged, hchecked, hentries, hjudged, rfl, rfl, (Except.ok.inj hranked).symm⟩⟩
  · intro ⟨run⟩
    rw [run.checked, ok_bind]
    dsimp only
    rw [normalize_eq_ok.mpr ⟨run.entries, run.identified, rfl, rfl⟩, ok_bind]
    dsimp only
    have hjudges := run.judges
    rw [Distinct.kept] at hjudges
    rw [hjudges, ok_bind, succeeds_assignRanks run.judges]
    have hresult : ∀ {ranked rejected duplicates}, result.ranked = ranked → result.rejected = rejected →
        result.duplicates_removed = duplicates → ⟨ranked, rejected, duplicates⟩ = result := by
      intro _ _ _ h₁ h₂ h₃
      rw [← h₁, ← h₂, ← h₃]
    exact congrArg Except.ok (hresult run.ranked run.rejected run.duplicates)

/-- The key of a candidate does not depend on its rank. -/
theorem sortKey_ranked (c : RankedQueryCandidate) (rank : Nat) : sortKey { c with shadow_rank := rank } = sortKey c := rfl

theorem candidate_id_of_sortKey {a b : RankedQueryCandidate} (h : sortKey a = sortKey b) :
    a.candidate_id = b.candidate_id :=
  congrArg (fun k => (ofLex (ofLex (ofLex k).2).2).2) h

namespace Run

/-- The identities of the candidates, by position. -/
def ids (run : Run env c request proposals result) : List Text := run.entries.map Prod.snd

/-- What is ranked, before the final ranks. -/
def accepted (run : Run env c request proposals result) : List RankedQueryCandidate :=
  run.judged.filterMap Sum.getRight?

variable (run : Run env c request proposals result)

include run in
theorem ranked_map {β : Type} (f : RankedQueryCandidate → β)
    (hf : ∀ c rank, f { c with shadow_rank := rank } = f c) :
    result.ranked.map f = (Distinct.sortBy sortKey run.accepted).map f := by
  rw [run.ranked, List.map_map]
  have hcomp : f ∘ withRank = f ∘ Prod.fst := by
    funext c
    exact hf c.1 c.2
  rw [hcomp, ← List.map_map, List.zipIdx_map_fst]
  rfl

/-- A ranked candidate was assessed, but for its rank. -/
theorem exists_accepted {r : RankedQueryCandidate} (hr : r ∈ result.ranked) :
    ∃ a ∈ run.accepted, ∃ rank, r = { a with shadow_rank := rank } := by
  rw [run.ranked, List.mem_map] at hr
  obtain ⟨⟨a, rank⟩, ha, rfl⟩ := hr
  exact ⟨a, (Distinct.sortBy_perm _).mem_iff.mp (List.fst_mem_of_mem_zipIdx ha), rank, rfl⟩

/-- An accepted candidate is a kept entry. -/
theorem kept_of_accepted {a : RankedQueryCandidate} (ha : a ∈ run.accepted) :
    (Distinct.position run.ids a.candidate_id, a.proposal, a.candidate_id) ∈ Distinct.kept Prod.snd run.entries ∧ WellScored a ∧
      (strings request.approved_question_order)[a.approved_question_position]? = some a.proposal.question_id := by
  obtain ⟨⟨k, proposal, cid⟩, hentry, hassess⟩ := assessed run.judges ha
  obtain ⟨hid, hproposal, hscored, hposition⟩ := assess_ranked hassess
  have hk := (Distinct.mem_kept.mp hentry).2
  dsimp only at hid hproposal hposition hk
  rw [hid, hproposal, ids, hk]
  exact ⟨hentry, hscored, hposition⟩

/-- No two accepted candidates have one identity. -/
theorem nodup_accepted : (run.accepted.map (·.candidate_id)).Nodup := by
  have hnodup := @Distinct.nodup_kept _ _ _ Prod.snd run.entries
  have hsub : ∀ {entries : List (Nat × Proposal × Text)} {judged : List (RejectedCandidate ⊕ RankedQueryCandidate)},
      entries.mapM (judge env c request (strings request.approved_question_order) run.open_questions) = .ok judged →
      List.Sublist ((judged.filterMap Sum.getRight?).map (·.candidate_id)) (entries.map (·.2.2)) := by
    intro entries judged h
    have hall := forall₂_of_mapM h
    clear h
    induction hall with
    | nil => exact .slnil
    | @cons entry outcome entries judged hentry _ ih =>
        cases outcome with
        | inl reason => exact ih.cons _
        | inr ranked =>
            have hid := (assess_ranked ((judge_eq_ok hentry).2 ranked rfl)).1
            rw [List.filterMap_cons, List.map_cons]
            change List.Sublist (ranked.candidate_id :: _) _
            rw [hid]
            exact ih.cons_cons _
  exact hnodup.sublist (hsub run.judges)

include run in
theorem ordered : Ordered (strings request.approved_question_order) result.ranked := by
  refine ⟨?_, ?_, ?_, ?_⟩
  · -- the keys are sorted, and different as the identities are
    have hkeys := run.ranked_map sortKey sortKey_ranked
    have hids : ((Distinct.sortBy sortKey run.accepted).map (·.candidate_id)).Nodup :=
      ((Distinct.sortBy_perm _).map _).nodup_iff.mpr run.nodup_accepted
    have hstrict : (result.ranked.map sortKey).Pairwise (· < ·) := by
      rw [hkeys, List.pairwise_map]
      refine ((Distinct.sortBy_sorted run.accepted).and (List.pairwise_map.mp hids)).imp ?_
      intro a b ⟨hle, hne⟩
      exact lt_of_le_of_ne hle fun heq => hne (candidate_id_of_sortKey heq)
    exact List.pairwise_map.mp hstrict
  · rw [run.ranked, List.map_map, List.length_map, List.length_zipIdx]
    exact List.zipIdx_map_snd _ _
  · intro r hr
    obtain ⟨a, ha, rank, rfl⟩ := run.exists_accepted hr
    exact (run.kept_of_accepted ha).2.2
  · intro r hr
    obtain ⟨a, ha, rank, rfl⟩ := run.exists_accepted hr
    have hscored := (run.kept_of_accepted ha).2.1
    exact ⟨hscored.score, hscored.components, hscored.cost, hscored.total⟩

theorem partitions : Partitions run.ids result := by
  have hlength : run.ids.length = run.entries.length := List.length_map _
  refine ⟨?_, ?_, ?_⟩
  · -- ranked and rejected are the kept entries, by their positions
    have hkept : run.judged.map (Sum.elim (·.source_index) fun r => Distinct.position run.ids r.candidate_id) =
        (Distinct.kept Prod.snd run.entries).map (·.1) := by
      have hall := forall₂_of_mapM run.judges
      have hmem : ∀ entry ∈ Distinct.kept Prod.snd run.entries, Distinct.position run.ids entry.2.2 = entry.1 :=
        fun entry h => (Distinct.mem_kept.mp h).2
      revert hmem
      generalize Distinct.kept Prod.snd run.entries = entries at hall
      generalize run.judged = judged at hall
      induction hall with
      | nil => exact fun _ => rfl
      | @cons entry outcome entries judged hentry _ ih =>
          intro hmem
          rw [List.forall_mem_cons] at hmem
          rw [List.map_cons, List.map_cons, ih hmem.2]
          cases outcome with
          | inl r => rw [Sum.elim_inl, ((judge_eq_ok hentry).1 r rfl).1]
          | inr r => rw [Sum.elim_inr, (assess_ranked ((judge_eq_ok hentry).2 r rfl)).1, hmem.1]
    have hranked := run.ranked_map (fun r => Distinct.position run.ids r.candidate_id) fun _ _ => rfl
    have hsorted : (Distinct.sortBy sortKey run.accepted).Perm run.accepted := Distinct.sortBy_perm _
    have hjudged := ((hsorted.map fun r => Distinct.position run.ids r.candidate_id).append_right
      ((run.judged.filterMap Sum.getLeft?).map (·.source_index))).trans (perm_judged run.judged)
    rw [hranked, run.rejected, hlength, List.range_eq_range', ids, ← Distinct.repeated_positions]
    exact ((hkept ▸ hjudged).append_right _).trans (Distinct.perm_positions [] 0 run.entries)
  · intro r hr
    rw [run.rejected, List.mem_filterMap] at hr
    obtain ⟨outcome, houtcome, hleft⟩ := hr
    obtain ⟨⟨k, proposal, cid⟩, hmem, hentry⟩ := (mem_of_mapM run.judges).1 outcome houtcome
    cases outcome with
    | inr ranked => cases hleft
    | inl reason =>
        cases hleft
        obtain ⟨hindex, hid⟩ := (judge_eq_ok hentry).1 r rfl
        rw [hindex, hid, ids, List.getElem?_map, (Distinct.mem_kept.mp hmem).1]
        rfl
  · rw [run.duplicates]
    exact @Distinct.repeated_keys _ _ _ Prod.snd run.entries

end Run

end Run

/-- Whatever the checks of its records could refuse is never computed. Where a ranking returns, every position of
its input is ranked, rejected or a duplicate, and only one of these; the ranked list is in the order of plan position,
then scored before unscored, then falling score, then identity, with ranks 1, 2, …; and for candidates that are equal
where their identities are, it is the ranked list of every other order of the input. -/
theorem rank_query_candidates_divides (env : Environment) (c : Context) (request : Request)
    (proposals : List Candidate) :
    Raises Raised.allowed (rank_query_candidates env c request proposals) ∧
    ∀ result, rank_query_candidates env c request proposals = .ok result →
      ∃ entries, proposals.mapM (identity env c.hunt_id) = .ok entries ∧
        Partitions (entries.map Prod.snd) result ∧
        Ordered (strings request.approved_question_order) result.ranked ∧
        (∀ r ∈ result.ranked, (r.proposal, r.candidate_id) ∈ entries) ∧
        ((∀ a ∈ entries, ∀ b ∈ entries, a.2 = b.2 → a = b) → ∀ proposals', proposals.Perm proposals' →
          ∃ result', rank_query_candidates env c request proposals' = .ok result' ∧ result'.ranked = result.ranked) := by
  refine ⟨raises_rank_query_candidates c request proposals, fun result h => ?_⟩
  obtain ⟨run⟩ := rank_eq_ok.mp h
  refine ⟨run.entries, run.identified, run.partitions, run.ordered, fun r hr => ?_, fun hidentity proposals' hperm => ?_⟩
  · obtain ⟨a, ha, rank, rfl⟩ := run.exists_accepted hr
    exact List.mem_of_getElem? (Distinct.mem_kept.mp (run.kept_of_accepted ha).1).1
  · -- the same candidates are identified, kept and assessed, each with the same outcome
    obtain ⟨entries', hentries', hentries⟩ := mapM_perm hperm run.identified
    have hchecked : checkRequest c request proposals' =
        .ok (strings request.approved_question_order, run.open_questions) := by
      rw [← run.checked, checkRequest, checkRequest, hperm.length_eq]
    have hkept := Distinct.kept_perm hentries hidentity
    obtain ⟨outcomes, houtcomes, haccepted⟩ := map_eq_ok.mp ((mapM_judge _).symm.trans (by rw [run.judges]; rfl))
    obtain ⟨outcomes', houtcomes', hperm'⟩ := mapM_perm hkept houtcomes
    have hjudges := @mapM_judge env c request (strings request.approved_question_order) run.open_questions
      (Distinct.kept Prod.snd entries')
    rw [houtcomes'] at hjudges
    obtain ⟨judged', hjudged', haccepted'⟩ := map_eq_ok.mp hjudges
    let run' : Run env c request proposals' ⟨((Distinct.sortBy sortKey (judged'.filterMap Sum.getRight?)).zipIdx 1).map
        withRank, judged'.filterMap Sum.getLeft?,
        (Distinct.repeated Prod.snd entries').map (·.2.2)⟩ :=
      ⟨run.open_questions, entries', judged', hchecked, hentries', hjudged', rfl, rfl, rfl⟩
    refine ⟨_, rank_eq_ok.mpr ⟨run'⟩, ?_⟩
    have hsame : run.accepted.Perm (judged'.filterMap Sum.getRight?) := by
      have hright := hperm'.filterMap Sum.getRight?
      rw [haccepted] at hright
      exact haccepted' ▸ hright
    -- no two accepted candidates have one key, so that there is one way to sort them
    have hkeys : ∀ a ∈ run.accepted, ∀ b ∈ run.accepted, sortKey a = sortKey b → a = b :=
      fun a ha b hb heq => List.inj_on_of_nodup_map run.nodup_accepted ha hb (candidate_id_of_sortKey heq)
    rw [run.ranked]
    exact congrArg (fun l => (l.zipIdx 1).map withRank) (Distinct.sortBy_eq_of_perm hsame hkeys).symm

/-! ### Sample values -/

/-- An environment whose digests are the texts themselves, and without candidates that are mappings. -/
def plainEnvironment : Environment where
  db := Spl.foldedLetters
  cache_key material := material.normalized_spl
  sha256 _ proposal := proposal.spl
  fields _ := ⟨none, none, none⟩
  str _ := some []

/-- An hour of one index and one sourcetype, with one host. -/
def sampleScope : Mapping :=
  [("earliest_utc", .datetime ⟨0, some 0⟩), ("latest_utc", .datetime ⟨3600, some 0⟩),
    ("indexes", .json (.array [.string "main"])), ("sourcetypes", .json (.array [.string "a"])),
    ("entities", .json (.array [.object [("field", .string "host"), ("value", .string "server1")]]))]

def sampleContext : Context where
  hunt_id := "hunt".toList
  approved_scope := some sampleScope
  discovery := some [("complete", .json (.bool true)), ("indexes", .json (.array [.string "main"])),
    ("sourcetypes", .json (.array [.string "a"])), ("fields", .json (.array [.string "host"]))]
  policy := some (Spl.singleSourcePolicy ["host".toList])
  history := some []
  now := some ⟨10, some 0⟩

def sampleRequest : Request where
  approved_question_order := [.json (.string "question-1")]
  open_question_ids := some [.json (.string "question-1")]
  linked_pivots := some []
  candidate_cap := 8

def sampleProposal (filter : String) : Proposal :=
  { Spl.singleSourceProposal ("search index=main sourcetype=a" ++ filter ++ " | table host") with
    expected_information_gain := [] }

/-- The narrower of two candidates comes first, in whatever order they are given. -/
theorem rank_query_candidates_sample :
    ∃ result result', rank_query_candidates plainEnvironment sampleContext sampleRequest
        [.proposal (sampleProposal ""), .proposal (sampleProposal " host=server1")] = .ok result ∧
      rank_query_candidates plainEnvironment sampleContext sampleRequest
        [.proposal (sampleProposal " host=server1"), .proposal (sampleProposal "")] = .ok result' ∧
      result.ranked.map (·.score) = [some 65, some 57] ∧ result'.ranked = result.ranked := by
  have hrun : ∃ result, rank_query_candidates plainEnvironment sampleContext sampleRequest
      [.proposal (sampleProposal ""), .proposal (sampleProposal " host=server1")] = .ok result ∧
      result.ranked.map (·.score) = [some 65, some 57] := by
    have hscores : ((rank_query_candidates plainEnvironment sampleContext sampleRequest
        [.proposal (sampleProposal ""), .proposal (sampleProposal " host=server1")]).toOption.map
          fun result => result.ranked.map (·.score)) = some [some 65, some 57] := by decide +kernel
    obtain ⟨result, hresult, hscore⟩ := Option.map_eq_some_iff.mp hscores
    exact ⟨result, toOption_eq_some.mp hresult, hscore⟩
  obtain ⟨result, hresult, hscore⟩ := hrun
  obtain ⟨entries, hentries, -, -, -, hperm⟩ :=
    (rank_query_candidates_divides plainEnvironment sampleContext sampleRequest _).2 result hresult
  have hids : (entries.map Prod.snd).Nodup := by
    have heval : (([Candidate.proposal (sampleProposal ""), .proposal (sampleProposal " host=server1")].mapM
        (identity plainEnvironment sampleContext.hunt_id)).toOption.map fun entries => entries.map Prod.snd) =
          some ["query:search index=main sourcetype=a | table host".toList,
            "query:search index=main sourcetype=a host=server1 | table host".toList] := by decide +kernel
    rw [hentries] at heval
    have hids := Option.some.inj heval
    dsimp only at hids
    rw [hids]
    decide
  obtain ⟨result', hresult', hranked⟩ := hperm (fun a ha b hb => List.inj_on_of_nodup_map hids ha hb) _ (.swap ..)
  exact ⟨result, result', hresult, hresult', hscore, hranked⟩

end QueryStrategy

end ThreatHunting
