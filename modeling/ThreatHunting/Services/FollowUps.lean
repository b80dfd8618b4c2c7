import ThreatHunting.Services.Execution
import ThreatHunting.Services.LeadSessions

/-!
# ThreatHunting.Services.FollowUps

The part of `_assess_execution_round` that turns a model's follow-up decisions into planned queries, with what it
calls in `services/investigation.py`: the decisions are widened for the retained lead sessions, checked for values
of the evidence and judged by the policy; rejected ones are repaired once; and of what is left every search that no
earlier one covers is planned.

It is run here by the one worker that holds the lease, so the stored document is what this worker stored last: the state of
the run. `_persist_policy_rejections` writes to it also where the run fails afterwards.
-/

namespace ThreatHunting

open Fallible

namespace FollowUps

open EvidenceLookup (value)
open ModelOutput (Members)
open Spl (QueryProposal QueryValidationResult SPLPolicy CacheDigest)
open ThreatIntel (Raised query_ioc_context compare_advisory_iocs scalars)
open LeadSessions
open WorkflowService.Worker (ordered planFollowUps decisionRecord rejections reasonText SearchIdentity)

/-- What a follow-up question has besides what is stored of every question. -/
structure QuestionDetails where
  source_query_id : Option String
  /-- The values of its `grounded_entities`. -/
  grounded_entities : List String
  deriving DecidableEq, Repr

/-- A round of follow-up planning: the documents it reads. -/
structure Batch where
  policy : SPLPolicy
  cache_digest : CacheDigest
  plan : HuntPlan
  /-- `adaptive_results`, as it is stored before the decisions are asked for. -/
  results : Results
  /-- The assessments of the round, the questions they raise, and the queries that are assessed then. -/
  assessments : List Document
  follow_up_questions : List Question
  assessed_query_ids : List Uuid
  remaining_queries : Nat
  /-- The rows of `assessment_results`, and those shown with the questions. -/
  evidence : List Members
  retained_evidence : List Members
  threat_intelligence : String
  details : Question → QuestionDetails
  usage : BudgetCounters

namespace Batch

variable (py : LeadSessions.Interpreter) (b : Batch)

/-- `questions_for_decision`. -/
def questions : List Question :=
  (pending_investigation_questions b.plan b.results b.follow_up_questions).take b.remaining_queries

/-- `follow_up_ids`. -/
def follow_up_ids : List String := b.questions.map (·.question_id)

/-- `open_question_ids`. -/
def open_question_ids : List String := b.plan.questions.map (·.question_id)

/-- `completed_queries`, by their ids. -/
def completed_query_ids : List Uuid := b.results.queries.map (·.query_id)

/-- `questions.get(question_id)`, of the last question with the id. -/
def question (question_id : String) : Option Question :=
  b.questions.reverse.find? (·.question_id = question_id)

/-! ### Widening -/

/-- The rows of completed queries. -/
def completedRows : List Members :=
  b.evidence.filter fun row => py.text (value row "query_id") ∈ b.completed_query_ids

/-- A row with its `advisory_ioc_comparison`. -/
def compared (row : Members) : Except Raised Compared := do
  let iocs ← query_ioc_context py.json b.threat_intelligence
  return (row, ← compare_advisory_iocs py.json py.calls (value row "selected_result") iocs)

/-- `sessions`. -/
def sessions : Except Raised (List LeadSession) := do
  let leads ← advisory_lead_groups py (← (b.completedRows py).mapM (b.compared py))
  return retained_lead_session_filters leads

/-- Does the question of a decision ask for all leads? -/
def requiresCoverage (d : FollowUpDecision) : Bool :=
  question_requires_all_lead_coverage py (((b.question d.question_id).map (·.question)).getD "").toList

/-- One decision, its search widened if its question asks for all leads and it does not cover them. -/
def widenDecision (sessions : List LeadSession) (d : FollowUpDecision) : Except Raised FollowUpDecision :=
  match d.proposal with
  | none => .ok d
  | some proposal =>
      if !b.requiresCoverage py d || spl_covers_all_lead_sessions proposal.spl sessions then .ok d
      else match widen_spl_for_lead_sessions py proposal.spl sessions with
        | .ok spl => .ok { d with proposal := some { proposal with spl } }
        | .error message => .error (.validation
            ("follow-up query cannot cover all retained advisory lead sessions: " ++ message))

/-- `_widen_follow_up_decisions_for_lead_coverage`. -/
def widen (decisions : List FollowUpDecision) : Except Raised (List FollowUpDecision) := do
  let sessions ← b.sessions py
  if sessions.length < 2 then return decisions
  else decisions.mapM (b.widenDecision py sessions)

/-! ### Grounding -/

/-- `row.get("evidence_id") in source_ids`, which hashes the id. -/
def cites (source_ids : List String) (row : Members) : Except Raised Bool :=
  match value row "evidence_id" with
  | .string id => .ok (id ∈ source_ids)
  | .array _ | .object _ => .error .type_error
  | _ => .ok false

/-- The values a cited row has for a question. -/
def citedValues (question : Question) (row : Members) : Except Raised (List String) := do
  let source := (b.details question).source_query_id
  if (← cites question.source_evidence_ids row) &&
      py.text (value row "query_id") = py.text ((source.map Json.string).getD .null) then
    return (← scalars py.json py.calls (value row "selected_result")).map py.text
  else return []

/-- `entity_values`. -/
def entityValues (question : Question) : Except Raised (List String) := do
  let cited ← b.retained_evidence.mapM (b.citedValues py question)
  return (b.details question).grounded_entities.filter (· ≠ "") ++ cited.flatten

/-- Does a search use one of some values? -/
def usesValue (values : List String) (proposal : QueryProposal) : Bool :=
  values.isEmpty || values.any fun v => py.casefold v.toList <:+: py.casefold (strip proposal.spl)

/-- The loop of `_follow_up_proposal_errors`, after the questions in `seen`. -/
def proposalErrors (seen : List Text) : List QueryProposal → Except Raised (List (Text × String))
  | [] => .ok []
  | proposal :: rest =>
      match b.question (String.ofList proposal.question_id) with
      | none => do
          return (proposal.question_id, "follow-up query must reference one unique generated question") ::
            (← proposalErrors seen rest)
      | some question =>
          if proposal.question_id ∈ seen then do
            return (proposal.question_id, "follow-up query must reference one unique generated question") ::
              (← proposalErrors seen rest)
          else do
            let values ← b.entityValues py question
            if usesValue py values proposal then proposalErrors (proposal.question_id :: seen) rest
            else
              return (proposal.question_id, "follow-up query did not use an evidence-grounded pivot value") ::
                (← proposalErrors seen rest)

/-- `_follow_up_proposal_errors`: a message for each question it rejects the proposal of. -/
def follow_up_proposal_errors (proposals : List QueryProposal) : Except Raised (List (Text × String)) :=
  b.proposalErrors py [] proposals

/-- `proposal_errors.get(question_id)`; a later message of a question takes the place of an earlier one. -/
def errorOf (errors : List (Text × String)) (proposal : QueryProposal) : Option String :=
  (errors.reverse.find? (·.1 = proposal.question_id)).map (·.2)

/-- The rejections of the application. -/
def applicationRejections (errors : List (Text × String)) (proposals : List QueryProposal) : List PolicyRejection :=
  proposals.filterMap fun proposal => (errorOf errors proposal).map fun reason => ⟨none, proposal, [reason]⟩

/-! ### Judging -/

/-- `policy.validate(proposal, open_question_ids=…)`. -/
def judge (open_question_ids : Option (List String)) (proposal : QueryProposal) : Except Raised QueryValidationResult :=
  match b.policy.validate py.db b.cache_digest proposal (open_question_ids.map (·.map (·.toList))) with
  | .ok v => .ok v
  | .error (.valueError _) => .error .value_error
  | .error .stopIteration => .error .stop_iteration

/-- `allowed_question_ids`. -/
def allowed_question_ids : List String := b.open_question_ids ++ b.follow_up_ids

/-- Proposals with their verdicts; `uuid` are the identifiers the verdicts get. -/
def validated (uuid : Nat → Uuid) (proposals : List QueryProposal) :
    Except Raised (List (QueryProposal × Uuid × QueryValidationResult)) :=
  proposals.zipIdx.mapM fun (proposal, n) => do
    return (proposal, uuid n, ← b.judge py (some b.allowed_question_ids) proposal)

/-! ### Deciding -/

/-- What the first pass over a batch makes of it. -/
structure Pass where
  decisions : List FollowUpDecision
  rejected : List PolicyRejection

/-- `rejected_ids`. -/
def Pass.rejected_ids (pass : Pass) : List String := pass.rejected.map fun r => String.ofList r.proposal.question_id

/-- `accepted_decisions`. -/
def Pass.accepted (pass : Pass) : List FollowUpDecision := pass.decisions.filter (·.question_id ∉ pass.rejected_ids)

/-- `repair_ids`. -/
def repair_ids (pass : Pass) : List String := b.follow_up_ids.filter (· ∈ pass.rejected_ids)

/-- The first pass: widening, the check for values of the evidence, and the policy. -/
def firstPass (uuid : Nat → Uuid) (answered : List FollowUpDecision) : Except Raised Pass := do
  let decisions ← b.widen py (ordered b.follow_up_ids answered)
  let proposals := decisions.filterMap (·.proposal)
  let errors ← b.follow_up_proposal_errors py proposals
  let validated ← b.validated py uuid proposals
  return ⟨decisions, applicationRejections errors proposals ++ rejections validated⟩

/-- A run on the stored document. -/
abbrev Planning (α : Type) := ExceptT Raised (StateM Results) α

/-- `_persist_policy_rejections`. -/
def persist_policy_rejections (rejected : List PolicyRejection) : Planning Unit :=
  if rejected.isEmpty then pure ()
  else modify fun results =>
    { results with query_policy_rejections := some (results.query_policy_rejections.getD [] ++ rejected) }

/-- The decisions of the batch, after at most one repair of rejected ones. -/
def decisions (uuid : Nat → Uuid) (answered : List FollowUpDecision) (repair : List String → List FollowUpDecision) :
    Planning (List FollowUpDecision) := do
  let pass ← liftM (b.firstPass py uuid answered)
  if pass.rejected.isEmpty then return pass.decisions
  else
    persist_policy_rejections pass.rejected
    let repaired := repair (b.repair_ids pass)
    let decisions ← liftM (b.widen py (ordered b.follow_up_ids (repaired ++ pass.accepted)))
    let proposals := decisions.filterMap (·.proposal)
    let errors ← liftM (b.follow_up_proposal_errors py proposals)
    if errors.isEmpty then return decisions
    else
      persist_policy_rejections (applicationRejections errors proposals)
      throw (.validation ("; ".intercalate ((errors.map (·.2)).eraseDups.mergeSort)))

/-! ### Planning -/

/-- The identity of a search that the policy allows. -/
def searchIdentity (proposal : QueryProposal) : Except Raised (Option SearchIdentity) := do
  let v ← b.judge py none proposal
  match v.allowed, v.cache_key with
  | true, some key => return some (key, proposal.result_mode)
  | _, _ => return none

/-- `seen_queries`: the searches that are completed when planning begins. -/
def seenQueries : Except Raised (List (SearchIdentity × String)) := do
  let seen ← (b.results.ledger.filter (·.query_id ∈ b.completed_query_ids)).mapM fun entry => do
    return (← b.searchIdentity py entry.proposal).map fun identity => (identity, "completed query " ++ entry.query_id)
  return seen.filterMap id

/-- The document with the searches of the decisions planned, and the status of the round. -/
def planRound (uuid : Nat → Uuid) (decisions : List FollowUpDecision) : Planning (Results × String) := do
  let seen ← liftM (b.seenQueries py)
  let validated ← liftM (b.validated py uuid (decisions.filterMap (·.proposal)))
  let planned := planFollowUps validated seen
  if planned.rejected.isEmpty then
    let stored := (← get).plan_queries planned.ledger
    return ({ stored with
        follow_up_decisions := stored.follow_up_decisions ++
          decisions.map (decisionRecord planned.duplicates b.completed_query_ids) },
      if planned.ledger.isEmpty then "no_follow_up_query" else "follow_up_planned")
  else
    persist_policy_rejections planned.rejected
    throw (.query_policy_rejected
      ("SPL follow-up query rejected by deterministic policy: " ++ reasonText planned.rejected))

/-- What a round leaves in the document. -/
def finish (planned : Results × String) : Results :=
  let results := { planned.1 with
    query_assessments := planned.1.query_assessments ++ b.assessments
    follow_up_questions := planned.1.follow_up_questions ++ b.follow_up_questions
    assessed_query_ids := b.assessed_query_ids.eraseDups.mergeSort
    usage := some b.usage }
  let pending := (pending_investigation_questions b.plan results []).map (·.question_id)
  let status := if planned.2 = "no_follow_up_query" && !pending.isEmpty then "questions_pending" else planned.2
  { results with
    pending_question_ids := pending
    adaptive_complete := !(status = "follow_up_planned" || status = "questions_pending")
    adaptive_status := some status }

/-- The round: it decides, plans and stores the document. -/
def follow_up (uuid uuid' : Nat → Uuid) (answered : List FollowUpDecision)
    (repair : List String → List FollowUpDecision) : Planning Unit := do
  let decisions ← b.decisions py uuid answered repair
  let planned ← b.planRound py uuid' decisions
  set (b.finish planned)

/-- The open questions of the execution that resumes from a document. -/
def runtime_question_ids (results : Results) : List String :=
  b.open_question_ids ++ results.follow_up_questions.map (·.question_id)

end Batch

/-! ### Sample values -/

/-- An interpreter that folds ASCII letters only. -/
def asciiPython : LeadSessions.Interpreter where
  db := Spl.foldedLetters
  str := fun _ => "None"
  event_time := fun _ => none
  json := Grounding.Reader.python fun _ => none
  calls := 1000
  fold := fun c => [c]

/-- A plan question with a text. -/
def samplePlanQuestion (question_id question : String) : PlanQuestion where
  question_id
  question
  rationale := "scope"
  expected_information_gain := "scope"

/-- A batch on questions of a plan, with rows and an advisory. -/
def sampleBatch (questions : List PlanQuestion) (rows : List Members) (advisory : String) : Batch where
  policy := Spl.singleSourcePolicy []
  cache_digest := Spl.CacheMaterial.normalized_spl
  plan := {
    header := none
    hypothesis := "scope"
    objective := "scope"
    scope := ⟨0, 3600, ["main"], ["a"]⟩
    questions
    query_strategy := []
    coverage_limitations := [] }
  results := {
    queries := [{
      query_id := "query-1", question_id := "question-0".toList, splunk_job_id := "sid", purpose := [], spl := []
      earliest_utc := 0, latest_utc := 3600, result := ⟨2, 100, false, none, none, 1⟩
      result_mode := .representative }] }
  assessments := []
  follow_up_questions := []
  assessed_query_ids := []
  remaining_queries := 5
  evidence := rows
  retained_evidence := []
  threat_intelligence := advisory
  details := fun _ => ⟨none, []⟩
  usage := {}

/-- A decision with a search on the source of the sample policy. -/
def sampleDecision (question_id spl : String) : FollowUpDecision where
  question_id
  proposal := some { Spl.singleSourceProposal spl with question_id := question_id.toList }
  skip_reason := none

/-- A decision without one. -/
def skippedDecision (question_id : String) : FollowUpDecision where
  question_id
  proposal := none
  skip_reason := some "no telemetry"

end FollowUps

end ThreatHunting
