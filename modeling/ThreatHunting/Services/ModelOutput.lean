import ThreatHunting.Lib.Fallible
import ThreatHunting.Services.Documents

/-!
# ThreatHunting.Services.ModelOutput

Decoding of model output (`services/model_output.py`, and the `_structured`, `run` and
`repair_once` of `StrictModelRunner`). A response is any JSON value; its reference labels are
resolved and what the application derives from them is filled in before the contract validates
it, so decoding works on values of any shape.

`except (ValidationError, ValueError, TypeError)` permits one repair of a value that is refused.
Every other exception escapes. The second half of the module lists, for any value, the faults
decoding would meet in order, and shows that a value escapes exactly if the first of them is
fatal.
-/

namespace ThreatHunting

open Fallible

namespace ModelOutput

/-- The exceptions of decoding. A `ValidationError` is a `ValueError`. -/
inductive PyError
  | value_error (message : String)
  | type_error (message : String)
  | key_error
  | attribute_error
  | recursion_error
  deriving DecidableEq, Repr

/-- The exceptions that are not caught as contract violations. -/
def PyError.Escapes : PyError → Prop
  | .value_error _ | .type_error _ => False
  | .key_error | .attribute_error | .recursion_error => True

@[simp] theorem PyError.value_error_escapes (message : String) : ¬Escapes (.value_error message) := not_false

@[simp] theorem PyError.type_error_escapes (message : String) : ¬Escapes (.type_error message) := not_false

@[simp] theorem PyError.key_error_escapes : Escapes .key_error := trivial

@[simp] theorem PyError.attribute_error_escapes : Escapes .attribute_error := trivial

@[simp] theorem PyError.recursion_error_escapes : Escapes .recursion_error := trivial

instance : DecidablePred PyError.Escapes := by
  intro e
  cases e <;> unfold PyError.Escapes <;> infer_instance

/-! ### Python values -/

/-- The members of a `dict`. -/
abbrev Members := List (String × Json)

/-- `d.get(key)`. -/
def get (ms : Members) (key : String) : Option Json := (ms.find? (·.1 = key)).map (·.2)

/-- `d[key] = value`. -/
def set (ms : Members) (key : String) (value : Json) : Members :=
  if (get ms key).isSome then ms.map fun m => if m.1 = key then (key, value) else m
  else ms ++ [(key, value)]

@[simp] theorem get_nil (key : String) : get [] key = none := rfl

theorem get_cons (m : String × Json) (ms : Members) (key : String) :
    get (m :: ms) key = if m.1 = key then some m.2 else get ms key := by
  rw [get, List.find?_cons]
  by_cases h : m.1 = key <;> simp [h, get]

theorem get_append (xs ys : Members) (key : String) :
    get (xs ++ ys) key = (get xs key).or (get ys key) := by
  induction xs with
  | nil => rfl
  | cons m xs ih =>
      rw [List.cons_append, get_cons, get_cons, ih]
      split <;> rfl

/-- A value that is set is read back, and no other value changes. -/
theorem get_set (ms : Members) (key other : String) (value : Json) :
    get (set ms key value) other = if other = key then some value else get ms other := by
  have hreplace : get (ms.map fun m => if m.1 = key then (key, value) else m) other =
      if other = key then (get ms key).map fun _ => value else get ms other := by
    induction ms with
    | nil => simp
    | cons m ms ih =>
        rw [List.map_cons, get_cons, get_cons, get_cons, ih]
        by_cases hm : m.1 = key
        · by_cases ho : other = key
          · simp [hm, ho]
          · simp [hm, ho, Ne.symm ho]
        · by_cases ho : other = key
          · simp [ho, hm]
          · simp [hm, ho]
  rw [set]
  by_cases hsome : (get ms key).isSome = true
  · obtain ⟨old, hold⟩ := Option.isSome_iff_exists.mp hsome
    rw [if_pos hsome, hreplace, hold]
    rfl
  · rw [if_neg hsome, get_append, get_cons]
    by_cases ho : other = key
    · have hnone : get ms other = none := ho ▸ Option.not_isSome_iff_eq_none.mp hsome
      rw [hnone, if_pos ho.symm, if_pos ho]
      rfl
    · rw [if_neg fun h => ho h.symm, if_neg ho]
      exact Option.or_none

/-- Leaving other keys out changes nothing about a key. -/
theorem get_filter {p : String × Json → Bool} {key : String} (hp : ∀ v, p (key, v) = true)
    (ms : Members) : get (ms.filter p) key = get ms key := by
  induction ms with
  | nil => rfl
  | cons m ms ih =>
      rw [List.filter_cons, get_cons, ← ih]
      by_cases hm : m.1 = key
      · have hkept : p m = true := by
          obtain ⟨k, v⟩ := m
          obtain rfl : k = key := hm
          exact hp v
        rw [if_pos hkept, get_cons]
      · rw [if_neg hm]
        split
        · rw [get_cons, if_neg hm]
        · rfl

/-- `bool(value)`. -/
def truthy : Json → Bool
  | .null => false
  | .bool b => b
  | .int n => n ≠ 0
  | .float repr => repr ≠ "0.0" && repr ≠ "-0.0"
  | .nonfinite => true
  | .string s => s ≠ ""
  | .array items => !items.isEmpty
  | .object ms => !ms.isEmpty

/-- What `for item in value` goes through: items, keys or characters. -/
def iterate : Json → Except PyError (List Json)
  | .array items => .ok items
  | .object ms => .ok (ms.map fun m => .string m.1)
  | .string s => .ok (s.toList.map fun c => .string (String.singleton c))
  | _ => .error (.type_error "object is not iterable")

/-- The text of a JSON string. -/
def asString : Json → Option String
  | .string s => some s
  | _ => none

mutual

/-- How deep a value is nested. -/
def depth : Json → Nat
  | .array items => depthItems items + 1
  | .object ms => depthMembers ms + 1
  | _ => 0

def depthItems : List Json → Nat
  | [] => 0
  | j :: js => max (depth j) (depthItems js)

def depthMembers : List (String × Json) → Nat
  | [] => 0
  | (_, j) :: ms => max (depth j) (depthMembers ms)

end

/-- `hash(value)` raises `TypeError` on a `list` and a `dict`. -/
def hashable : Json → Bool
  | .array _ | .object _ => false
  | _ => true

/-- `set(values)`. -/
def hashed (values : List Json) : Except PyError (List Json) :=
  if values.all hashable then .ok values else .error (.type_error "unhashable type")

/-- `table[key]`, in a table whose keys are strings. -/
def lookup {α : Type} (table : String → Option α) (key : Json) : Except PyError α :=
  if hashable key then
    match (asString key).bind table with
    | some a => .ok a
    | none => .error .key_error
  else .error (.type_error "unhashable type")

/-- What decoding takes from the interpreter and from the evidence module. -/
structure Runtime where
  /-- `str` of a value that is not a string. -/
  str : Json → String
  /-- The texts of `_flatten_scalar_values`; `none` if the row nests too deep. -/
  scalar_texts : Json → Option (List String)
  /-- How deep `json.loads` may nest before it raises `RecursionError`. -/
  parse_depth : Nat
  /-- How many nested calls of `visit` there may be. -/
  visit_calls : Nat

/-! ### References -/

/-- A supplied evidence row. -/
structure EvidenceRow where
  evidence_id : String
  query_id : String
  selected_result : Json
  deriving Inhabited

/-- A supplied completed query. -/
structure QueryRow where
  query_id : String
  members : Members
  deriving Inhabited

/-- A group of `advisory_lead_groups`. -/
structure AdvisoryLead where
  lead_evidence_id : String
  evidence_ids : List String

/-- `ReferenceLabels`: the labels of one request with their rows, and the leads among them. -/
structure ReferenceLabels where
  evidence : List (String × EvidenceRow)
  queries : List (String × QueryRow)
  advisory_leads : List AdvisoryLead

/-- `_EVIDENCE_FIELDS`. -/
def evidenceFields : List String :=
  ["evidence_id", "evidence_ids", "lead_evidence_id", "allowed_evidence_ids", "result_row_refs",
    "evidence_candidate_row_refs", "returned_evidence_ids", "supplied_evidence_ids",
    "representative_evidence_id"]

/-- `_QUERY_FIELDS`. -/
def queryFields : List String := ["query_id", "query_ids", "source_query_id"]

/-- Does the field hold references? -/
def isReference (key : String) : Bool := key ∈ evidenceFields || key ∈ queryFields

/-- `query_results_incomplete`. -/
def query_results_incomplete (query : Members) : Bool :=
  (match get query "status" with
    | none | some (.string "completed") => false
    | _ => true) ||
  (match get query "outcome" with
    | none | some .null | some (.string "success") | some (.string "succeeded") => false
    | _ => true) ||
  (get query "truncated").any truthy || (get query "partial_fetch").any truthy ||
  (match get query "result_count", get query "available_result_count" with
    | some (.int retained), some (.int available) => retained < available
    | _, _ => false)

/-- A finding that nothing supports within the scope. -/
def isNegative (ms : Members) : Bool :=
  match get ms "classification" with
  | some (.string s) => s = "not_supported_within_scope"
  | _ => false

/-- A member that is read as a list when it is missing. -/
def listMember (ms : Members) (key : String) : Json := (get ms key).getD (.array [])

/-- Does the finding cite evidence? -/
def citesEvidence (ms : Members) : Bool := (get ms "evidence_ids").any truthy

/-- Does the answer ask for more evidence? -/
def requestsEvidence (ms : Members) : Bool := (get ms "retained_evidence_requests").any truthy

namespace ReferenceLabels

variable (labels : ReferenceLabels)

/-- The identifier a label of a reference field stands for. -/
def identifier (key label : String) : Option String :=
  if key ∈ evidenceFields then (labels.evidence.find? (·.1 = label)).map (·.2.evidence_id)
  else (labels.queries.find? (·.1 = label)).map (·.2.query_id)

/-- `evidence_by_id`. -/
def evidence_by_id (id : String) : Option EvidenceRow :=
  (labels.evidence.reverse.find? (·.2.evidence_id = id)).map (·.2)

/-- `query_by_id`. -/
def query_by_id (id : String) : Option QueryRow :=
  (labels.queries.reverse.find? (·.2.query_id = id)).map (·.2)

/-! ### Decoding -/

/-- `list(dict.fromkeys(values))`. -/
def distinct (values : List Json) : Except PyError Json := do
  let values ← hashed values
  pure (.array ((values.filterMap asString).eraseDups.map .string))

/-- The value of a scalar, whose label must be known in a reference field. -/
def visitScalar (key : String) (item : Json) : Except PyError Json :=
  if isReference key then
    match (asString item).bind (labels.identifier key) with
    | some id => .ok (.string id)
    | none => .error (.value_error ("unknown " ++ key ++ " label; choose only supplied labels"))
  else .ok item

/-- `visit`, with `calls` nested calls left. -/
def visit : Nat → String → Json → Except PyError Json
  | 0, _, _ => .error .recursion_error
  | calls + 1, key, item =>
      match item with
      | .object ms => do
          let ms ← ms.mapM fun m => (m.1, ·) <$> visit calls m.1 m.2
          pure (.object ms)
      | .array items => do
          let values ← items.mapM (visit calls key)
          if isReference key then distinct values else pure (.array values)
      | scalar => labels.visitScalar key scalar

/-- The rows of a query in which a scalar value is observed. -/
def observed_refs (rt : Runtime) (query_id text : String) : List String :=
  ((labels.evidence.map (·.2)).filter fun row =>
    row.query_id = query_id && (rt.scalar_texts row.selected_result).any (text ∈ ·)).map (·.evidence_id)

/-- Every supplied row is flattened to its scalar values. -/
def flattenRows (rt : Runtime) : Except PyError Unit :=
  if labels.evidence.all fun row => (rt.scalar_texts row.2.selected_result).isSome then .ok ()
  else .error .recursion_error

/-- The rows an entity's value is found in. -/
def selectedMatches (rt : Runtime) (query_id : String) (ms : Members) : List String :=
  (((get ms "value").bind asString).map (labels.observed_refs rt query_id)).getD []

/-- An entity of an assessment, with the rows its value is found in. -/
def deriveEntity (rt : Runtime) (query_id : String) (entity : Json) : Except PyError Json :=
  match entity with
  | .object ms =>
      if (get ms "result_row_refs").isSome then .ok entity
      else if (labels.selectedMatches rt query_id ms).isEmpty then
        .error (.value_error "new_entities value must equal a complete scalar value")
      else
        .ok (.object (set ms "result_row_refs"
          (.array ((labels.selectedMatches rt query_id ms).map .string))))
  | other => .ok other

/-- `str(assessment.get("query_id"))`. -/
def assessedQuery (rt : Runtime) (ms : Members) : String :=
  match get ms "query_id" with
  | some (.string s) => s
  | some other => rt.str other
  | none => "None"

/-- The assessment with the question of its query. -/
def withQuestion (rt : Runtime) (ms : Members) : Members :=
  if (get ms "question_id").isSome then ms
  else
    match (labels.query_by_id (assessedQuery rt ms)).bind fun query => get query.members "question_id" with
    | some question => set ms "question_id" question
    | none => ms

/-- An assessment with its question and the rows of its entities. -/
def deriveAssessment (rt : Runtime) (assessment : Json) : Except PyError Json :=
  match assessment with
  | .object ms => do
      let ms' := labels.withQuestion rt ms
      let entities ← iterate (listMember ms' "new_entities")
      let entities ← entities.mapM (labels.deriveEntity rt (assessedQuery rt ms))
      match get ms' "new_entities" with
      | some (.array _) => pure (.object (set ms' "new_entities" (.array entities)))
      | _ => pure (.object ms')
  | other => .ok other

/-- A cited query of a negative finding, whose results must be complete. -/
def completeQuery (id : Json) : Except PyError Unit := do
  let query ← lookup labels.query_by_id id
  if query_results_incomplete query.members then
    .error (.value_error "negative findings require complete query results")
  else .ok ()

/-- The check of a negative finding. -/
def checkNegative (ms : Members) : Except PyError Unit :=
  if isNegative ms then
    match listMember ms "query_ids" with
    | .array ids => do
        let _ ← ids.mapM labels.completeQuery
        pure ()
    | _ => .error (.value_error "finding query_ids must be a list")
  else .ok ()

/-- The cited queries must be among those the evidence belongs to. -/
def checkCited (ms : Members) (expected : List String) : Except PyError Unit :=
  match listMember ms "query_ids" with
  | .array ids => do
      let ids ← hashed ids
      if ids.all fun id => (asString id).any (· ∈ expected) then .ok ()
      else .error (.value_error "finding query labels do not match its selected evidence")
  | _ => .error (.value_error "finding query labels do not match its selected evidence")

/-- The finding with the queries of its evidence. -/
def withQueries (ms : Members) (expected : List String) : Json :=
  .object (set ms "query_ids" (.array ((expected.eraseDups.mergeSort).map .string)))

/-- A finding with the queries of its evidence. -/
def deriveFinding (finding : Json) : Except PyError Json :=
  match finding with
  | .object ms => do
      labels.checkNegative ms
      if citesEvidence ms then
        let ids ← iterate ((get ms "evidence_ids").getD .null)
        let rows ← ids.mapM (lookup labels.evidence_by_id)
        checkCited ms (rows.map (·.query_id))
        pure (withQueries ms (rows.map (·.query_id)))
      else pure finding
  | other => .ok other

/-- An answer with its findings derived. -/
def deriveAnswer (answer : Json) : Except PyError Json :=
  match answer with
  | .object ms =>
      match get ms "findings" with
      | some (.array findings) => do
          let findings ← findings.mapM labels.deriveFinding
          pure (.object (set ms "findings" (.array findings)))
      | _ => .ok answer
  | other => .ok other

/-- The message of a finding number that selects nothing. -/
def selectsNothing : PyError :=
  .value_error "lead finding_numbers must select existing one-based finding positions"

/-- A finding a lead is said to be covered by. -/
def checkSupport (lead : AdvisoryLead) (finding : Json) : Except PyError Unit :=
  match finding with
  | .object ms =>
      if isNegative ms then .ok ()
      else do
        let ids ← iterate (listMember ms "evidence_ids")
        let ids ← hashed ids
        if ids.any fun id => (asString id).any (· ∈ lead.evidence_ids) then .ok ()
        else .error (.value_error "lead coverage finding must cite a supplied record for that lead")
  | _ => .error .attribute_error

/-- The finding a one-based number selects. -/
def checkNumber (proposals : Json) (lead : AdvisoryLead) (number : Json) : Except PyError Unit :=
  match number with
  | .int n =>
      if n < 1 then .error selectsNothing
      else
        match proposals with
        | .array findings =>
            match findings[n.toNat - 1]? with
            | some finding => checkSupport lead finding
            | none => .error selectsNothing
        | .object ms => if n ≤ ms.length then .error .key_error else .error selectsNothing
        | .string s => if n ≤ s.length then .error .attribute_error else .error selectsNothing
        | _ => .error (.type_error "object has no len()")
  | _ => .error selectsNothing

/-- An item of the coverage, with the lead it is about. -/
def coveredLead (item : Json) : Option (Members × AdvisoryLead) :=
  match item with
  | .object ms => ((get ms "lead_evidence_id").bind asString).bind fun id =>
      (labels.advisory_leads.reverse.find? (·.lead_evidence_id = id)).map (ms, ·)
  | _ => none

/-- The items of a coverage that lists every supplied lead exactly once. -/
def coveredLeads (coverage : Json) : Option (List (Members × AdvisoryLead)) :=
  match coverage with
  | .array items =>
      (items.mapM labels.coveredLead).filter fun covered =>
        (covered.map (·.2.lead_evidence_id)).Nodup &&
          labels.advisory_leads.all (·.lead_evidence_id ∈ covered.map (·.2.lead_evidence_id))
  | _ => none

/-- The finding numbers of one covered lead. -/
def checkLead (proposals : Json) (covered : Members × AdvisoryLead) : Except PyError Unit := do
  let numbers ← iterate (listMember covered.1 "finding_numbers")
  let _ ← numbers.mapM (checkNumber proposals covered.2)
  pure ()

/-- The lead coverage of an answer. -/
def checkCoverage (answer : Json) : Except PyError Unit :=
  match answer with
  | .object ms =>
      if requestsEvidence ms then .ok ()
      else
        match labels.coveredLeads (listMember ms "lead_coverage") with
        | none => .error (.value_error "lead_coverage must account for every supplied advisory lead exactly once")
        | some covered => do
            let _ ← covered.mapM (checkLead (listMember ms "findings"))
            pure ()
  | _ => .ok ()

/-- The relations derived for a resolved value. -/
def derive (rt : Runtime) (findings : Bool) (decoded : Json) : Except PyError Json :=
  match findings, decoded with
  | false, .array assessments => do
      labels.flattenRows rt
      let assessments ← assessments.mapM (labels.deriveAssessment rt)
      pure (.array assessments)
  | true, .array items => do
      let items ← items.mapM labels.deriveFinding
      pure (.array items)
  | true, .object answers => do
      let answers ← answers.mapM fun a => (a.1, ·) <$> labels.deriveAnswer a.2
      let _ ← answers.mapM fun a => labels.checkCoverage a.2
      pure (.object answers)
  | _, other => .ok other

/-- `decode`. -/
def decode (rt : Runtime) (findings : Bool) (value : Json) : Except PyError Json := do
  let decoded ← labels.visit rt.visit_calls "" value
  labels.derive rt findings decoded

end ReferenceLabels

/-! ### The runner -/

/-- What `json.loads` would make of a text, and how deep it nests. -/
inductive Spelling
  | value (v : Json)
  | malformed (nesting : Nat)

/-- A response of the provider. A text with an unpaired surrogate cannot be encoded. -/
structure Response where
  structured : Option Json
  text : Spelling
  surrogates : Bool

/-- A contract as the runner uses it, with the references and sources of one request. -/
structure OutputContract (V : Type) where
  name : String
  type_name : Option String
  references : Option ReferenceLabels
  plan_sources : Option (List String)
  /-- `model_validate` or `validate_python`, which raises `ValidationError`. -/
  validate : Json → Except String V

variable {V F : Type}

/-- `json.loads(response.text)`. -/
def loads (rt : Runtime) (text : Spelling) : Except PyError Json :=
  match text with
  | .value v => if depth v ≤ rt.parse_depth then .ok v else .error .recursion_error
  | .malformed nesting =>
      if nesting ≤ rt.parse_depth then .error (.value_error "response was not valid JSON")
      else .error .recursion_error

namespace OutputContract

variable (contract : OutputContract V)

/-- `wrapper_key`. -/
def wrapper_key : Option String :=
  if "[]".toList.isSuffixOf contract.name.toList then
    some (String.ofList contract.name.toList.dropLast.dropLast)
  else none

/-- The value inside the wrapper. -/
def unwrap (value : Json) : Json :=
  match contract.wrapper_key, value with
  | some key, .object [(name, inner)] => if name = key then inner else value
  | _, _ => value

/-- Are findings decoded? -/
def findings : Bool :=
  contract.wrapper_key = some "FindingProposal" || contract.type_name = some "QuestionSynthesis"

/-- The decoded value, if the request supplied references. -/
def decoded (rt : Runtime) (value : Json) : Except PyError Json :=
  match contract.references with
  | some labels => labels.decode rt contract.findings value
  | none => .ok value

/-- The intelligence references of a plan, which default to all sources. -/
def intelligenceRefs (sources : List String) (ms : Members) : Json :=
  (get ms "intelligence_refs").getD (.array (sources.map .string))

/-- `validate_intelligence_refs`. -/
def refsSupplied (sources : List String) (refs : Json) : Bool :=
  match refs with
  | .array refs => refs.all fun ref => (asString ref).any (· ∈ sources)
  | _ => false

/-- The plan with its intelligence references, which must be among the sources. -/
def withSources (value : Json) : Except PyError Json :=
  match contract.plan_sources, value with
  | some sources, .object ms =>
      if refsSupplied sources (intelligenceRefs sources ms) then
        .ok (.object (set ms "intelligence_refs" (intelligenceRefs sources ms)))
      else .error (.value_error "plan intelligence reference is not among the supplied sources")
  | _, other => .ok other

/-- The contract's own validation. -/
def validated (value : Json) : Except PyError V :=
  match contract.validate value with
  | .ok v => .ok v
  | .error message => .error (.value_error message)

/-- The structured value of a response, or the value of its text. -/
def parsed (rt : Runtime) (response : Response) : Except PyError Json :=
  match response.structured with
  | some value => .ok value
  | none => loads rt response.text

/-- `_structured`. -/
def structured (rt : Runtime) (response : Response) : Except PyError V := do
  let value ← parsed rt response
  let value ← contract.decoded rt (contract.unwrap value)
  let value ← contract.withSources value
  contract.validated value

end OutputContract

/-- What a run raises. An adapter raises an `F`. -/
inductive Raised (F : Type)
  | model_contract_error (contract reason : String) (attempts : Nat)
  | adapter_error (e : F)
  | escaped (e : PyError)

/-- What the provider does during one run. The repair call is preceded by checks that may
raise, before its request is encoded. -/
structure Provider (F : Type) where
  first : Except F Response
  preflight : Except F Unit
  repair : Except F Response

/-- The exceptions the callers of the runner handle. -/
def Contained : Except (Raised F) V → Prop
  | .error (.escaped _) => False
  | _ => True

@[simp] theorem contained_ok (v : V) : Contained (.ok v : Except (Raised F) V) := trivial

@[simp] theorem contained_adapter_error (e : F) :
    Contained (.error (.adapter_error e) : Except (Raised F) V) := trivial

@[simp] theorem contained_model_contract_error (contract reason : String) (attempts : Nat) :
    Contained (.error (.model_contract_error contract reason attempts) : Except (Raised F) V) := trivial

@[simp] theorem contained_escaped (e : PyError) :
    ¬Contained (.error (.escaped e) : Except (Raised F) V) := not_false

namespace OutputContract

variable (contract : OutputContract V)

/-- The last call a run may make: what violates the contract is a `ModelContractError`. -/
def lastCall (rt : Runtime) (attempts : Nat) : Except F Response → Except (Raised F) V
  | .error e => .error (.adapter_error e)
  | .ok response =>
      match contract.structured rt response with
      | .ok v => .ok v
      | .error (.value_error message) | .error (.type_error message) =>
          .error (.model_contract_error contract.name message attempts)
      | .error e => .error (.escaped e)

/-- The repair of `run`. Its request repeats the text of the response that was refused. -/
def repairCall (rt : Runtime) (provider : Provider F) (refused : Response) : Except (Raised F) V :=
  match provider.preflight with
  | .error e => .error (.adapter_error e)
  | .ok () =>
      -- `UnicodeEncodeError` is a `ValueError`, but nothing catches it here
      if refused.surrogates then .error (.escaped (.value_error "surrogates not allowed"))
      else contract.lastCall rt 2 provider.repair

/-- `run`, with the repair flag of each call it makes. -/
def run (rt : Runtime) (provider : Provider F) : List Bool × Except (Raised F) V :=
  match provider.first with
  | .error e => ([false], .error (.adapter_error e))
  | .ok response =>
      match contract.structured rt response with
      | .ok v => ([false], .ok v)
      | .error (.value_error _) | .error (.type_error _) =>
          ([false, true], contract.repairCall rt provider response)
      | .error e => ([false], .error (.escaped e))

/-- `repair_once`, with the repair flag of the call it makes. -/
def repair_once (rt : Runtime) (provided : Except F Response) : List Bool × Except (Raised F) V :=
  ([true], contract.lastCall rt 1 provided)

end OutputContract

/-! ### The faults of a value, in order -/

/-- One place, refused if the condition fails. -/
def refusedUnless (ok : Bool) : List Verdict := if ok then [] else [.refused]

/-- One place, fatal if the condition fails. -/
def fatalUnless (ok : Bool) : List Verdict := if ok then [] else [.fatal]

/-- Looking up an unhashable key is refused, a key that is missing is fatal. -/
def lookupFaults {α : Type} (table : String → Option α) (key : Json) : List Verdict :=
  if hashable key then fatalUnless ((asString key).bind table).isSome else [.refused]

/-- What can be gone through. -/
def iterable : Json → Bool
  | .array _ | .object _ | .string _ => true
  | _ => false

/-- What going through a value yields; nothing if it cannot be gone through. -/
def elements : Json → List Json
  | .array items => items
  | .object ms => ms.map fun m => .string m.1
  | .string s => s.toList.map fun c => .string (String.singleton c)
  | _ => []

/-- What is found under a key. -/
def found {α : Type} [Inhabited α] (table : String → Option α) (key : Json) : α :=
  ((asString key).bind table).getD default

namespace ReferenceLabels

variable (labels : ReferenceLabels)

/-- Is the label of a reference field known? -/
def known (key : String) (item : Json) : Bool :=
  !isReference key || ((asString item).bind (labels.identifier key)).isSome

/-- A value with its labels replaced. -/
def resolved : Nat → String → Json → Json
  | 0, _, item => item
  | calls + 1, key, item =>
      match item with
      | .object ms => .object (ms.map fun m => (m.1, resolved calls m.1 m.2))
      | .array items =>
          if isReference key then
            .array (((items.map (resolved calls key)).filterMap asString).eraseDups.map .string)
          else .array (items.map (resolved calls key))
      | scalar =>
          if isReference key then
            (((asString scalar).bind (labels.identifier key)).map Json.string).getD scalar
          else scalar

/-- Resolving references is fatal where it nests too deep; an unknown label is refused, and
so is a container in a list of references. -/
def visitFaults : Nat → String → Json → List Verdict
  | 0, _, _ => [.fatal]
  | calls + 1, key, item =>
      match item with
      | .object ms => ms.flatMap fun m => visitFaults calls m.1 m.2
      | .array items =>
          items.flatMap (visitFaults calls key) ++
            refusedUnless (!isReference key || (items.map (labels.resolved calls key)).all hashable)
      | scalar => refusedUnless (labels.known key scalar)

/-- A row must nest no deeper than it can be flattened. -/
def rowFaults (rt : Runtime) : List Verdict :=
  fatalUnless (labels.evidence.all fun row => (rt.scalar_texts row.2.selected_result).isSome)

/-- The value of an entity must be observed in a row of the query. -/
def entityFaults (rt : Runtime) (query_id : String) (entity : Json) : List Verdict :=
  match entity with
  | .object ms =>
      refusedUnless ((get ms "result_row_refs").isSome || !(labels.selectedMatches rt query_id ms).isEmpty)
  | _ => []

/-- The entity with its rows. -/
def filledEntity (rt : Runtime) (query_id : String) (entity : Json) : Json :=
  match entity with
  | .object ms =>
      if (get ms "result_row_refs").isSome then entity
      else .object (set ms "result_row_refs" (.array ((labels.selectedMatches rt query_id ms).map .string)))
  | other => other

/-- The entities of an assessment must be listed, each as `entityFaults` says. -/
def assessmentFaults (rt : Runtime) (assessment : Json) : List Verdict :=
  match assessment with
  | .object ms =>
      let entities := listMember (labels.withQuestion rt ms) "new_entities"
      refusedUnless (iterable entities) ++
        (elements entities).flatMap (labels.entityFaults rt (assessedQuery rt ms))
  | _ => []

/-- The assessment with its question and the rows of its entities. -/
def filledAssessment (rt : Runtime) (assessment : Json) : Json :=
  match assessment with
  | .object ms =>
      let ms' := labels.withQuestion rt ms
      match get ms' "new_entities" with
      | some (.array entities) =>
          .object (set ms' "new_entities"
            (.array (entities.map (labels.filledEntity rt (assessedQuery rt ms)))))
      | _ => .object ms'
  | other => other

/-- A negative finding must cite a list of supplied queries with complete results. -/
def negativeFaults (ms : Members) : List Verdict :=
  if isNegative ms then
    match listMember ms "query_ids" with
    | .array ids => ids.flatMap fun id =>
        lookupFaults labels.query_by_id id ++
          refusedUnless (!query_results_incomplete (found labels.query_by_id id).members)
    | _ => [.refused]
  else []

/-- A finding must cite queries of its evidence only. -/
def citedFaults (ms : Members) (expected : List String) : List Verdict :=
  match listMember ms "query_ids" with
  | .array ids =>
      refusedUnless (ids.all hashable) ++
        refusedUnless (ids.all fun id => (asString id).any (· ∈ expected))
  | _ => [.refused]

/-- What a finding cites as evidence. -/
def citedEvidence (ms : Members) : List Json := elements ((get ms "evidence_ids").getD .null)

/-- The queries of the evidence a finding cites. -/
def citedQueries (ms : Members) : List String :=
  (citedEvidence ms).map fun id => (found labels.evidence_by_id id).query_id

/-- A finding that cites evidence must cite supplied rows: anything else it goes through is
looked up in vain. -/
def findingFaults (finding : Json) : List Verdict :=
  match finding with
  | .object ms =>
      labels.negativeFaults ms ++
        if citesEvidence ms then
          refusedUnless (iterable ((get ms "evidence_ids").getD .null)) ++
            ((citedEvidence ms).flatMap (lookupFaults labels.evidence_by_id) ++
              citedFaults ms (labels.citedQueries ms))
        else []
  | _ => []

/-- The finding with the queries of its evidence. -/
def filledFinding (finding : Json) : Json :=
  match finding with
  | .object ms => if citesEvidence ms then withQueries ms (labels.citedQueries ms) else finding
  | other => other

/-- The findings of an answer, if it lists any. -/
def listedFindings (answer : Json) : Option (List Json) :=
  match answer with
  | .object ms =>
      match get ms "findings" with
      | some (.array findings) => some findings
      | _ => none
  | _ => none

/-- The faults of the findings an answer lists. -/
def answerFaults (answer : Json) : List Verdict :=
  ((listedFindings answer).getD []).flatMap labels.findingFaults

/-- The answer with its findings derived. -/
def filledAnswer (answer : Json) : Json :=
  match answer with
  | .object ms =>
      match get ms "findings" with
      | some (.array findings) => .object (set ms "findings" (.array (findings.map labels.filledFinding)))
      | _ => answer
  | other => other

/-- A finding that is to cover a lead must be an object, and cite a record of the lead. -/
def supportFaults (lead : AdvisoryLead) (finding : Json) : List Verdict :=
  match finding with
  | .object ms =>
      if isNegative ms then []
      else
        let ids := listMember ms "evidence_ids"
        refusedUnless (iterable ids) ++
          (refusedUnless ((elements ids).all hashable) ++
            refusedUnless ((elements ids).any fun id => (asString id).any (· ∈ lead.evidence_ids)))
  | _ => [.fatal]

/-- A finding number must select from a list of findings: to select from an object or a string
is fatal. -/
def numberFaults (proposals : Json) (lead : AdvisoryLead) (number : Json) : List Verdict :=
  match number with
  | .int n =>
      if n < 1 then [.refused]
      else
        match proposals with
        | .array findings =>
            match findings[n.toNat - 1]? with
            | some finding => supportFaults lead finding
            | none => [.refused]
        | .object ms => if n ≤ ms.length then [.fatal] else [.refused]
        | .string s => if n ≤ s.length then [.fatal] else [.refused]
        | _ => [.refused]
  | _ => [.refused]

/-- The finding numbers of a covered lead. -/
def leadFaults (proposals : Json) (covered : Members × AdvisoryLead) : List Verdict :=
  refusedUnless (iterable (listMember covered.1 "finding_numbers")) ++
    (elements (listMember covered.1 "finding_numbers")).flatMap (numberFaults proposals covered.2)

/-- An answer must cover every lead once, unless it asks for more evidence. -/
def coverageFaults (answer : Json) : List Verdict :=
  match answer with
  | .object ms =>
      if requestsEvidence ms then []
      else
        match labels.coveredLeads (listMember ms "lead_coverage") with
        | none => [.refused]
        | some covered => covered.flatMap (leadFaults (listMember ms "findings"))
  | _ => []

/-- The faults of a resolved value. -/
def deriveFaults (rt : Runtime) (findings : Bool) (decoded : Json) : List Verdict :=
  match findings, decoded with
  | false, .array assessments => labels.rowFaults rt ++ assessments.flatMap (labels.assessmentFaults rt)
  | true, .array items => items.flatMap labels.findingFaults
  | true, .object answers =>
      answers.flatMap (fun a => labels.answerFaults a.2) ++
        answers.flatMap fun a => labels.coverageFaults (labels.filledAnswer a.2)
  | _, _ => []

/-- The resolved value with what is derived for it. -/
def filled (rt : Runtime) (findings : Bool) (decoded : Json) : Json :=
  match findings, decoded with
  | false, .array assessments => .array (assessments.map (labels.filledAssessment rt))
  | true, .array items => .array (items.map labels.filledFinding)
  | true, .object answers => .object (answers.map fun a => (a.1, labels.filledAnswer a.2))
  | _, other => other

end ReferenceLabels

namespace OutputContract

variable (contract : OutputContract V)

/-- A text must be JSON, and nest no deeper than it can be parsed. -/
def loadFaults (rt : Runtime) (text : Spelling) : List Verdict :=
  match text with
  | .value v => fatalUnless (depth v ≤ rt.parse_depth)
  | .malformed nesting => if nesting ≤ rt.parse_depth then [.refused] else [.fatal]

/-- The value of a response. -/
def spelled (response : Response) : Json :=
  match response.structured, response.text with
  | some value, _ => value
  | none, .value v => v
  | none, .malformed _ => .null

/-- The value the contract validates. -/
def prepared (rt : Runtime) (value : Json) : Json :=
  match contract.references with
  | some labels => labels.filled rt contract.findings (labels.resolved rt.visit_calls "" value)
  | none => value

/-- The faults of decoding, if the request supplied references. -/
def decodeFaults (rt : Runtime) (value : Json) : List Verdict :=
  match contract.references with
  | some labels =>
      labels.visitFaults rt.visit_calls "" value ++
        labels.deriveFaults rt contract.findings (labels.resolved rt.visit_calls "" value)
  | none => []

/-- The intelligence references of a plan must be among the sources. -/
def sourceFaults (value : Json) : List Verdict :=
  match contract.plan_sources, value with
  | some sources, .object ms => refusedUnless (refsSupplied sources (intelligenceRefs sources ms))
  | _, _ => []

/-- The plan with its intelligence references. -/
def sourced (value : Json) : Json :=
  match contract.plan_sources, value with
  | some sources, .object ms => .object (set ms "intelligence_refs" (intelligenceRefs sources ms))
  | _, other => other

/-- The faults of a response, in the order in which they are met. -/
def faults (rt : Runtime) (response : Response) : List Verdict :=
  (if response.structured.isSome then [] else loadFaults rt response.text) ++
    (contract.decodeFaults rt (contract.unwrap (spelled response)) ++
      (contract.sourceFaults (contract.prepared rt (contract.unwrap (spelled response))) ++
        refusedUnless
          (contract.validate (contract.sourced (contract.prepared rt (contract.unwrap (spelled response))))).toOption.isSome))

end OutputContract

/-! ### Decoding settles on these faults -/

/-- Decoding that meets these faults, and returns this value without any. -/
abbrev Meets {α : Type} (x : Except PyError α) (faults : List Verdict) (a : α) : Prop :=
  Settles PyError.Escapes x faults a

section Leaves

variable {α : Type}

theorem meets_refusedUnless {ok : Bool} {x : Except PyError α} {a : α} {e : PyError}
    (hok : ok = true → x = .ok a) (herr : ok = false → x = .error e) (he : ¬e.Escapes) :
    Meets x (refusedUnless ok) a := by
  cases ok with
  | true => exact hok rfl
  | false => exact ⟨e, herr rfl, he⟩

theorem meets_fatalUnless {ok : Bool} {x : Except PyError α} {a : α} {e : PyError}
    (hok : ok = true → x = .ok a) (herr : ok = false → x = .error e) (he : e.Escapes) :
    Meets x (fatalUnless ok) a := by
  cases ok with
  | true => exact hok rfl
  | false => exact ⟨e, herr rfl, he⟩

theorem hashed_meets (values : List Json) :
    Meets (hashed values) (refusedUnless (values.all hashable)) values := by
  unfold hashed
  exact meets_refusedUnless (fun h => if_pos h) (fun h => if_neg (by simp [h])) id

theorem iterate_meets (value : Json) :
    Meets (iterate value) (refusedUnless (iterable value)) (elements value) := by
  cases value
  case array => exact Settles.ok _
  case object => exact Settles.ok _
  case string => exact Settles.ok _
  all_goals exact Settles.refuse id _

theorem lookup_meets [Inhabited α] (table : String → Option α) (key : Json) :
    Meets (lookup table key) (lookupFaults table key) (found table key) := by
  unfold lookup lookupFaults found
  by_cases hkey : hashable key = true
  · rw [if_pos hkey, if_pos hkey]
    cases (asString key).bind table with
    | some a => exact Settles.ok a
    | none => exact Settles.fault (e := PyError.key_error) trivial _
  · rw [if_neg hkey, if_neg hkey]
    exact Settles.refuse id _

end Leaves

namespace ReferenceLabels

variable (labels : ReferenceLabels) (rt : Runtime)

theorem visitScalar_meets (key : String) (item : Json) :
    Meets (labels.visitScalar key item) (refusedUnless (labels.known key item))
      (if isReference key then
        (((asString item).bind (labels.identifier key)).map Json.string).getD item
      else item) := by
  unfold visitScalar known
  by_cases hkey : isReference key = true
  · rw [if_pos hkey, if_pos hkey, hkey]
    cases (asString item).bind (labels.identifier key) with
    | some id => exact Settles.ok _
    | none => exact Settles.refuse id _
  · rw [if_neg hkey, if_neg hkey, Bool.eq_false_iff.mpr hkey]
    exact Settles.ok _

/-- Resolving references meets the faults of the value, place by place. -/
theorem visit_meets (calls : Nat) : ∀ key item,
    Meets (labels.visit calls key item) (labels.visitFaults calls key item) (labels.resolved calls key item) := by
  induction calls with
  | zero =>
      intro key item
      exact Settles.fault (e := PyError.recursion_error) trivial item
  | succ calls ih =>
      intro key item
      cases item
      case object ms =>
        exact (Settles.mapM fun m (_ : m ∈ ms) => (ih m.1 m.2).map (m.1, ·)).bindOk rfl
      case array items =>
        refine Settles.bind (Settles.mapM fun item (_ : item ∈ items) => ih key item) ?_
        unfold resolved
        by_cases hkey : isReference key = true
        · rw [if_pos hkey, hkey]
          exact (hashed_meets _).bindOk rfl
        · rw [if_neg hkey, Bool.eq_false_iff.mpr hkey]
          exact Settles.ok _
      all_goals exact labels.visitScalar_meets key _

theorem flattenRows_meets : Meets (labels.flattenRows rt) (labels.rowFaults rt) () := by
  unfold flattenRows rowFaults
  exact meets_fatalUnless (fun h => if_pos h) (fun h => if_neg (by simp [h])) trivial

theorem deriveEntity_meets (query_id : String) (entity : Json) :
    Meets (labels.deriveEntity rt query_id entity) (labels.entityFaults rt query_id entity)
      (labels.filledEntity rt query_id entity) := by
  cases entity
  case object ms =>
    unfold deriveEntity entityFaults filledEntity
    by_cases hrefs : (get ms "result_row_refs").isSome = true
    · simp only [hrefs, if_true, Bool.true_or, refusedUnless]
      exact Settles.ok _
    · cases hmatch : (labels.selectedMatches rt query_id ms).isEmpty with
      | true =>
          simp only [hrefs, hmatch, if_true]
          exact Settles.refuse id _
      | false =>
          simp only [hrefs, hmatch]
          exact Settles.ok _
  all_goals exact Settles.ok _

/-- Going through what is no list yields nothing to derive. -/
theorem deriveAssessment_meets (assessment : Json) :
    Meets (labels.deriveAssessment rt assessment) (labels.assessmentFaults rt assessment)
      (labels.filledAssessment rt assessment) := by
  cases assessment
  case object ms =>
    unfold deriveAssessment assessmentFaults filledAssessment
    refine Settles.bind (iterate_meets _) ?_
    refine Settles.bindOk (Settles.mapM fun entity _ => labels.deriveEntity_meets rt (assessedQuery rt ms) entity) ?_
    dsimp only [listMember]
    cases get (labels.withQuestion rt ms) "new_entities" with
    | none => exact rfl
    | some entities => cases entities <;> exact rfl
  all_goals exact Settles.ok _

theorem completeQuery_meets (id : Json) :
    Meets (labels.completeQuery id)
      (lookupFaults labels.query_by_id id ++
        refusedUnless (!query_results_incomplete (found labels.query_by_id id).members)) () := by
  unfold completeQuery
  refine Settles.bind (lookup_meets _ id) ?_
  exact meets_refusedUnless (fun h => if_neg (by simpa using h)) (fun h => if_pos (by simpa using h)) not_false

theorem checkNegative_meets (ms : Members) : Meets (labels.checkNegative ms) (labels.negativeFaults ms) () := by
  unfold checkNegative negativeFaults
  by_cases hneg : isNegative ms = true
  · rw [if_pos hneg, if_pos hneg]
    cases listMember ms "query_ids"
    case array ids => exact (Settles.mapM fun id _ => labels.completeQuery_meets id).bindOk rfl
    all_goals exact Settles.refuse id _
  · rw [if_neg hneg, if_neg hneg]
    exact Settles.ok _

theorem checkCited_meets (ms : Members) (expected : List String) :
    Meets (checkCited ms expected) (citedFaults ms expected) () := by
  unfold checkCited citedFaults
  cases listMember ms "query_ids"
  case array ids =>
    refine Settles.bind (hashed_meets ids) ?_
    exact meets_refusedUnless (fun h => if_pos h) (fun h => if_neg (by simp [h])) id
  all_goals exact Settles.refuse id _

/-- A finding is derived from the rows it cites. -/
theorem deriveFinding_meets (finding : Json) :
    Meets (labels.deriveFinding finding) (labels.findingFaults finding) (labels.filledFinding finding) := by
  cases finding
  case object ms =>
    unfold deriveFinding findingFaults filledFinding
    dsimp only
    refine Settles.bind (labels.checkNegative_meets ms) ?_
    by_cases hcites : citesEvidence ms = true
    · rw [if_pos hcites, if_pos hcites, if_pos hcites]
      refine Settles.bind (iterate_meets _) ?_
      refine Settles.bind (Settles.mapM fun id _ => lookup_meets labels.evidence_by_id id) ?_
      simp only [List.map_map]
      exact (checkCited_meets ms _).bindOk rfl
    · rw [if_neg hcites, if_neg hcites, if_neg hcites]
      exact Settles.ok _
  all_goals exact Settles.ok _

theorem deriveAnswer_meets (answer : Json) :
    Meets (labels.deriveAnswer answer) (labels.answerFaults answer) (labels.filledAnswer answer) := by
  cases answer
  case object ms =>
    unfold deriveAnswer answerFaults filledAnswer listedFindings
    dsimp only
    cases get ms "findings" with
    | none => exact Settles.ok _
    | some findings =>
        cases findings
        case array findings =>
          exact (Settles.mapM fun finding _ => labels.deriveFinding_meets finding).bindOk rfl
        all_goals exact Settles.ok _
  all_goals exact Settles.ok _

theorem checkSupport_meets (lead : AdvisoryLead) (finding : Json) :
    Meets (checkSupport lead finding) (supportFaults lead finding) () := by
  cases finding
  case object ms =>
    unfold checkSupport supportFaults
    dsimp only
    by_cases hneg : isNegative ms = true
    · rw [if_pos hneg, if_pos hneg]
      exact Settles.ok _
    · rw [if_neg hneg, if_neg hneg]
      refine Settles.bind (iterate_meets _) (Settles.bind (hashed_meets _) ?_)
      exact meets_refusedUnless (fun h => if_pos h) (fun h => if_neg (by simp [h])) id
  all_goals exact Settles.fault (e := PyError.attribute_error) trivial _

theorem checkNumber_meets (proposals : Json) (lead : AdvisoryLead) (number : Json) :
    Meets (checkNumber proposals lead number) (numberFaults proposals lead number) () := by
  have nothing : ¬PyError.Escapes selectsNothing := id
  cases number
  case int n =>
    unfold checkNumber numberFaults
    dsimp only
    by_cases hone : n < 1
    · rw [if_pos hone, if_pos hone]
      exact Settles.refuse nothing _
    · rw [if_neg hone, if_neg hone]
      cases proposals
      case array findings =>
        cases hfinding : findings[n.toNat - 1]? with
        | none =>
            simp only [hfinding]
            exact Settles.refuse nothing _
        | some finding =>
            simp only [hfinding]
            exact checkSupport_meets lead finding
      case object ms =>
        by_cases hn : n ≤ ms.length
        · simp only [if_pos hn]
          exact Settles.fault (e := PyError.key_error) trivial _
        · simp only [if_neg hn]
          exact Settles.refuse nothing _
      case string s =>
        by_cases hn : n ≤ s.length
        · simp only [if_pos hn]
          exact Settles.fault (e := PyError.attribute_error) trivial _
        · simp only [if_neg hn]
          exact Settles.refuse nothing _
      all_goals exact Settles.refuse (e := PyError.type_error _) id _
  all_goals exact Settles.refuse nothing _

theorem checkLead_meets (proposals : Json) (covered : Members × AdvisoryLead) :
    Meets (checkLead proposals covered) (leadFaults proposals covered) () := by
  refine Settles.bind (iterate_meets _) ?_
  exact (Settles.mapM fun number _ => checkNumber_meets proposals covered.2 number).bindOk rfl

theorem checkCoverage_meets (answer : Json) :
    Meets (labels.checkCoverage answer) (labels.coverageFaults answer) () := by
  cases answer
  case object ms =>
    unfold checkCoverage coverageFaults
    dsimp only
    by_cases hmore : requestsEvidence ms = true
    · rw [if_pos hmore, if_pos hmore]
      exact Settles.ok _
    · rw [if_neg hmore, if_neg hmore]
      cases labels.coveredLeads (listMember ms "lead_coverage") with
      | none => exact Settles.refuse id _
      | some covered =>
          exact (Settles.mapM fun c _ => checkLead_meets (listMember ms "findings") c).bindOk rfl
  all_goals exact Settles.ok _

theorem derive_meets (findings : Bool) (decoded : Json) :
    Meets (labels.derive rt findings decoded) (labels.deriveFaults rt findings decoded)
      (labels.filled rt findings decoded) := by
  cases findings with
  | false =>
      cases decoded
      case array assessments =>
        refine Settles.bind (labels.flattenRows_meets rt) ?_
        exact (Settles.mapM fun a _ => labels.deriveAssessment_meets rt a).bindOk rfl
      all_goals exact Settles.ok _
  | true =>
      cases decoded
      case array items =>
        exact (Settles.mapM fun finding _ => labels.deriveFinding_meets finding).bindOk rfl
      case object answers =>
        refine Settles.bind (Settles.mapM fun a _ => (labels.deriveAnswer_meets a.2).map (a.1, ·)) ?_
        have covered := Settles.mapM
          fun a (_ : a ∈ answers.map fun a => (a.1, labels.filledAnswer a.2)) => labels.checkCoverage_meets a.2
        rw [List.flatMap_map] at covered
        exact covered.bindOk rfl
      all_goals exact Settles.ok _

theorem decode_meets (findings : Bool) (value : Json) :
    Meets (labels.decode rt findings value)
      (labels.visitFaults rt.visit_calls "" value ++
        labels.deriveFaults rt findings (labels.resolved rt.visit_calls "" value))
      (labels.filled rt findings (labels.resolved rt.visit_calls "" value)) :=
  (labels.visit_meets rt.visit_calls "" value).bind (labels.derive_meets rt findings _)

end ReferenceLabels

namespace OutputContract

variable (contract : OutputContract V) (rt : Runtime)

theorem loads_meets (text : Spelling) (surrogates : Bool) :
    Meets (loads rt text) (loadFaults rt text) (spelled ⟨none, text, surrogates⟩) := by
  cases text with
  | value v =>
      unfold loads loadFaults
      exact meets_fatalUnless (e := PyError.recursion_error) (fun h => if_pos (by simpa using h))
        (fun h => if_neg (by simpa using h)) trivial
  | malformed nesting =>
      unfold loads loadFaults
      by_cases hdepth : nesting ≤ rt.parse_depth
      · simp only [if_pos hdepth]
        exact Settles.refuse not_false _
      · simp only [if_neg hdepth]
        exact Settles.fault (e := PyError.recursion_error) trivial _

theorem parsed_meets (response : Response) :
    Meets (parsed rt response) (if response.structured.isSome then [] else loadFaults rt response.text)
      (spelled response) := by
  obtain ⟨given, text, surrogates⟩ := response
  cases given with
  | some value => exact Settles.ok value
  | none => exact loads_meets rt text surrogates

theorem decoded_meets (value : Json) :
    Meets (contract.decoded rt value) (contract.decodeFaults rt value) (contract.prepared rt value) := by
  unfold decoded decodeFaults prepared
  cases contract.references with
  | none => exact Settles.ok _
  | some labels => exact labels.decode_meets rt contract.findings value

theorem withSources_meets (value : Json) :
    Meets (contract.withSources value) (contract.sourceFaults value) (contract.sourced value) := by
  unfold withSources sourceFaults sourced
  cases contract.plan_sources with
  | none => exact Settles.ok _
  | some sources =>
      cases value
      case object ms =>
        exact meets_refusedUnless (fun h => if_pos h) (fun h => if_neg (by simp [h])) not_false
      all_goals exact Settles.ok _

theorem validated_meets (value : Json) :
    Meets ((fun _ => ()) <$> contract.validated value)
      (refusedUnless (contract.validate value).toOption.isSome) () := by
  unfold validated
  cases contract.validate value with
  | ok v => exact Settles.ok ()
  | error message => exact Settles.refuse (e := PyError.value_error message) not_false ()

/-- A response is decoded and validated unless it has a fault, and then fails as the first
of them says. -/
theorem structured_meets (response : Response) :
    Meets ((fun _ => ()) <$> contract.structured rt response) (contract.faults rt response) () := by
  unfold structured faults
  rw [map_bind]
  refine Settles.bind (parsed_meets rt response) ?_
  rw [map_bind]
  refine Settles.bind (contract.decoded_meets rt _) ?_
  rw [map_bind]
  exact Settles.bind (contract.withSources_meets _) (contract.validated_meets _)

/-- The first fault of the response is fatal. -/
def Fatal (response : Response) : Prop := (contract.faults rt response).head? = some .fatal

/-- The first fault of the response is refused. -/
def Refused (response : Response) : Prop := (contract.faults rt response).head? = some .refused

theorem fatal_iff (response : Response) :
    contract.Fatal rt response ↔ ∃ e, contract.structured rt response = .error e ∧ e.Escapes := by
  unfold Fatal
  rw [← (contract.structured_meets rt response).fatal_iff]
  cases contract.structured rt response <;> simp [Functor.map, Except.map]

theorem refused_iff (response : Response) :
    contract.Refused rt response ↔ ∃ e, contract.structured rt response = .error e ∧ ¬e.Escapes := by
  unfold Refused
  rw [← (contract.structured_meets rt response).refused_iff]
  cases contract.structured rt response <;> simp [Functor.map, Except.map]

/-! ### Containment -/

/-- The responses of a run are contained: none that it receives has a fatal first fault, and
the text of one that is refused can be sent back. -/
def ContainedRun (provider : Provider F) : Prop :=
  ∀ response, provider.first = .ok response →
    ¬contract.Fatal rt response ∧
      (contract.Refused rt response → provider.preflight = .ok () →
        response.surrogates = false ∧
          ∀ repaired, provider.repair = .ok repaired → ¬contract.Fatal rt repaired)

theorem lastCall_contained (attempts : Nat) (provided : Except F Response) :
    Contained (contract.lastCall rt attempts provided) ↔
      ∀ response, provided = .ok response → ¬contract.Fatal rt response := by
  cases provided with
  | error e => simp [lastCall]
  | ok response =>
      simp only [fatal_iff, Except.ok.injEq, forall_eq']
      unfold lastCall
      cases hstructured : contract.structured rt response with
      | ok v => simp [hstructured]
      | error e => cases e <;> simp [hstructured]

theorem repairCall_contained (provider : Provider F) (refused : Response) :
    Contained (contract.repairCall rt provider refused) ↔
      (provider.preflight = .ok () → refused.surrogates = false ∧
        ∀ repaired, provider.repair = .ok repaired → ¬contract.Fatal rt repaired) := by
  unfold repairCall
  cases provider.preflight with
  | error e => simp
  | ok u =>
      cases refused.surrogates with
      | true => simp
      | false => simpa using contract.lastCall_contained rt 2 provider.repair

theorem run_contained (provider : Provider F) :
    Contained (contract.run rt provider).2 ↔ contract.ContainedRun rt provider := by
  unfold ContainedRun run
  cases provider.first with
  | error e => simp
  | ok response =>
      simp only [fatal_iff, refused_iff, Except.ok.injEq, forall_eq']
      cases hstructured : contract.structured rt response with
      | ok v => simp
      | error e =>
          have repair := contract.repairCall_contained rt provider response
          simp only [fatal_iff] at repair
          cases e <;> simp [repair]

theorem structured_of_lastCall {attempts : Nat} {provided : Except F Response} {v : V}
    (h : contract.lastCall rt attempts provided = .ok v) : ∃ response, contract.structured rt response = .ok v := by
  cases provided with
  | error e => cases h
  | ok response =>
      refine ⟨response, ?_⟩
      cases hstructured : contract.structured rt response with
      | ok w => simpa [lastCall, hstructured] using h
      | error e => cases e <;> simp [lastCall, hstructured] at h

/-- What `_structured` returns is an instance the contract validated. -/
theorem validate_of_structured {response : Response} {v : V} (h : contract.structured rt response = .ok v) :
    ∃ value, contract.validate value = .ok v := by
  obtain ⟨_, _, h⟩ := bind_eq_ok.mp h
  obtain ⟨_, _, h⟩ := bind_eq_ok.mp h
  obtain ⟨value, _, h⟩ := bind_eq_ok.mp h
  refine ⟨value, ?_⟩
  cases hvalidate : contract.validate value with
  | ok w => simpa [validated, hvalidate] using h
  | error message => simp [validated, hvalidate] at h

theorem structured_of_repairCall {provider : Provider F} {refused : Response} {v : V}
    (h : contract.repairCall rt provider refused = .ok v) : ∃ response, contract.structured rt response = .ok v := by
  cases hpreflight : provider.preflight with
  | error e => simp [repairCall, hpreflight] at h
  | ok u =>
      by_cases hsurrogates : refused.surrogates = true
      · simp [repairCall, hpreflight, hsurrogates] at h
      · have last : contract.lastCall rt 2 provider.repair = .ok v := by
          simpa [repairCall, hpreflight, hsurrogates] using h
        exact contract.structured_of_lastCall rt last

theorem structured_of_run {provider : Provider F} {v : V} (h : (contract.run rt provider).2 = .ok v) :
    ∃ response, contract.structured rt response = .ok v := by
  cases hfirst : provider.first with
  | error e => simp [run, hfirst] at h
  | ok response =>
      cases hstructured : contract.structured rt response with
      | ok w => exact ⟨response, by simpa [run, hfirst, hstructured] using h⟩
      | error e =>
          -- a repair follows only a refusal
          cases e <;> simp only [run, hfirst, hstructured] at h
          case value_error => exact contract.structured_of_repairCall rt h
          case type_error => exact contract.structured_of_repairCall rt h
          all_goals cases h

theorem run_repairs (provider : Provider F) : (contract.run rt provider).1.count true ≤ 1 := by
  unfold run
  cases provider.first with
  | error e => simp
  | ok response =>
      cases hstructured : contract.structured rt response with
      | ok v => simp [hstructured]
      | error e => cases e <;> simp [hstructured]

end OutputContract

/-- One supplied row of one completed query. -/
def exampleLabels : ReferenceLabels :=
  { evidence := [("E1", ⟨"r7", "q4", .object [("host", .string "web")]⟩)]
    queries := [("Q1", ⟨"q4", []⟩)]
    advisory_leads := [] }

/-- A synthesis that takes any value. -/
def exampleContract : OutputContract Json :=
  { name := "QuestionSynthesis", type_name := some "QuestionSynthesis"
    references := some exampleLabels, plan_sources := none, validate := .ok }

/-- An interpreter that recurses a thousand calls deep. -/
def exampleRuntime : Runtime :=
  { str := fun _ => "", scalar_texts := fun _ => some [], parse_depth := 1000, visit_calls := 1000 }

/-- An answer with one finding, whose evidence is this. -/
def answerCiting (evidence_ids : Json) : Response :=
  { structured := none
    text := .value (.object [("question_1", .object [
      ("findings", .array [.object [
        ("classification", .string "observed"), ("evidence_ids", evidence_ids)]]),
      ("lead_coverage", .array [])])])
    surrogates := false }

end ModelOutput

end ThreatHunting
