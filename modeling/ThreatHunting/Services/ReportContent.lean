import ThreatHunting.Lib.Template
import ThreatHunting.Services.Timeline
import ThreatHunting.Text

/-!
# ThreatHunting.Services.ReportContent

`validate_report_content` of `services/reports.py`, and the texts that its content is shown by.
What the validator checks are the canonical keys of a content; the content itself is returned as it
came, with all its other keys.
-/

namespace ThreatHunting

namespace ReportContent

open Fallible
open ModelOutput (Members get truthy)
open EvidenceLookup (isoformat decimal value)
open Spl (Time)

/-! ### Exceptions and the interpreter -/

/-- What is raised; only the first is a `ReportError`. -/
inductive Raised
  | report_validation_error (message : String)
  | value_error (message : String)
  | type_error
  | key_error (key : String)
  | attribute_error
  | overflow_error
  deriving DecidableEq, Repr

/-- A `datetime`: what a clock shows, in microseconds, and its distance from UTC, if it has one. -/
structure Stamp where
  wall : Time
  utcoffset : Option Time

/-- What the module takes from the interpreter and from pydantic. -/
structure Interpreter where
  /-- `str` of a value that is not a string. -/
  str : Json → String
  /-- `repr` of a list of strings. -/
  repr : List String → String
  /-- `datetime.fromisoformat`; `none` where it raises `ValueError`. -/
  fromisoformat : String → Option Stamp
  /-- `ZoneInfo`: how far its clocks are from UTC at a time; `none` for a key without a zone. -/
  zone : String → Option (Time → Time)
  /-- The time of a `UTCDateTime` field; `none` where the field is refused. -/
  utc_datetime : Json → Option Time

/-- `str(value)`. -/
def Interpreter.text (py : Interpreter) : Json → String
  | .string s => s
  | j => py.str j

/-- `datetime.min` and `datetime.max`, in UTC. -/
def inRange (time : Time) : Bool := -62135596800000000 ≤ time && time ≤ 253402300799999999

/-- `_utc`. -/
def utc (stamp : Stamp) : Except Raised Time :=
  match stamp.utcoffset with
  | none => .error (.value_error "timestamp must include a timezone")
  | some utcoffset =>
      if inRange (stamp.wall - utcoffset) then .ok (stamp.wall - utcoffset) else .error .overflow_error

/-- `text.replace("Z", "+00:00")`. -/
def replaceZ (text : String) : String := String.ofList (Template.replace ['Z'] "+00:00".toList text.toList)

/-- `d[key]`. -/
def item (ms : Members) (key : String) : Except Raised Json :=
  match get ms key with
  | some j => .ok j
  | none => .error (.key_error key)

/-- What is indexed by a string must be a dictionary. -/
def dictionary : Json → Except Raised Members
  | .object ms => .ok ms
  | _ => .error .type_error

/-- What `for item in value` goes through: items, keys or characters. -/
def elements : Json → Except Raised (List Json)
  | .array items => .ok items
  | .object ms => .ok (ms.map fun m => .string m.1)
  | .string s => .ok (s.toList.map fun c => .string (String.singleton c))
  | _ => .error .type_error

/-- `len(value)`. -/
def length (j : Json) : Except Raised Nat := (elements j).map List.length

/-! ### The validator -/

/-- `REQUIRED_SECTIONS`. -/
def REQUIRED_SECTIONS : List String :=
  ["hypothesis", "objective_and_scope", "data_sources_used", "findings", "selected_evidence", "entities", "timeline",
    "coverage_and_limitations", "conclusion_and_disposition", "query_appendix"]

/-- The key of a section. -/
def aliases : String → String
  | "findings" => "finding_ids"
  | "selected_evidence" => "evidence_ids"
  | "coverage_and_limitations" => "coverage"
  | "conclusion_and_disposition" => "conclusion"
  | section_ => section_

/-- `_RAW_RESULT_KEYS`. -/
def rawResultKeys : List String := ["raw_results", "raw_result_set", "full_raw_results", "result_batches"]

/-- The keys that must hold texts. -/
def textKeys : List String := ["hypothesis", "objective_and_scope", "conclusion", "disposition"]

/-- The keys that must hold arrays. -/
def arrayKeys : List String :=
  ["data_sources_used", "finding_ids", "evidence_ids", "query_ids", "entities", "timeline", "coverage", "limitations",
    "query_appendix"]

/-- A text that is not blank. -/
def isText : Json → Bool
  | .string s => strip s.toList ≠ []
  | _ => false

/-- An array of such texts. -/
def isTexts : Json → Bool
  | .array items => items.all isText
  | _ => false

def isArray : Json → Bool
  | .array _ => true
  | _ => false

/-- The items of an array, and none of another value. -/
def items : Json → List Json
  | .array items => items
  | _ => []

/-- A refusal, unless something holds. -/
def require (holds : Bool) (message : String) : Except Raised Unit :=
  if holds then .ok () else .error (.report_validation_error message)

variable (py : Interpreter)

/-- `_normalize_content`: JSON comes back as it was. -/
def normalize_content (content : Json) : Except Raised Members :=
  match content with
  | .object ms => do
      require (rawResultKeys.all fun key => (get ms key).isNone)
        "full raw query results cannot be included in a report"
      require (Json.utf8Length (Json.compact (Json.sorted content)) ≤ 5 * 1024 * 1024)
        "report content exceeds the 5 MiB input limit"
      return ms
  | _ => .error (.report_validation_error "report content must be an object")

/-- `check_ids`. -/
def check_ids (content : Members) (key : String) (available : Option (List String)) : Except Raised Unit :=
  let unknown := ((items (value content key)).map py.text).filter fun id => available.any (id ∉ ·)
  require unknown.isEmpty ("report references unavailable " ++ key ++ ": " ++ py.repr (unknown.eraseDups.mergeSort))

/-- The keys of one entry of the lead coverage. -/
def leadKeys : List String := ["lead_evidence_ids", "identity_fields", "finding_ids", "limitation"]

/-- One entry of the lead coverage of an answer with these findings. -/
def leadAccepted (finding_ids : List Json) : Json → Bool
  | .object lead =>
      leadKeys.all (fun key => (get lead key).isSome) && lead.all (fun m => leadKeys.contains m.1) &&
        isTexts (value lead "lead_evidence_ids") && !(items (value lead "lead_evidence_ids")).isEmpty &&
        (match value lead "identity_fields" with
          | .object fields => fields.all fun m => isText m.2
          | _ => false) &&
        isArray (value lead "finding_ids") &&
        (items (value lead "finding_ids")).all (finding_ids.contains ·) &&
        (value lead "limitation" = .null || isText (value lead "limitation")) &&
        (!(items (value lead "finding_ids")).isEmpty || truthy (value lead "limitation"))
  | _ => false

/-- Has a dictionary these keys and no others but the optional ones? -/
def hasKeys (ms : Members) (required optional : List String) : Bool :=
  required.all (fun key => (get ms key).isSome) && ms.all fun m => required.contains m.1 || optional.contains m.1

/-- `Identifier`. -/
def isIdentifier : Json → Bool
  | .string s => s ≠ ""
  | _ => false

/-- An integer that is not negative, and no `bool`. -/
def isCount : Json → Bool
  | .int n => 0 ≤ n
  | _ => false

/-- `RetainedEvidenceFilter`. -/
def filterAccepted : Json → Bool
  | .object ms =>
      hasKeys ms ["field", "value"] [] && isText (value ms "field") &&
        (match value ms "field" with
          | .string s => s.length ≤ 128
          | _ => false) &&
        (match value ms "value" with
          | .string _ | .int _ | .bool _ | .float _ => true
          | _ => false)
  | _ => false

/-- `RetainedFieldCount`. -/
def fieldCountAccepted : Json → Bool
  | .object ms =>
      let counts := ["distinct_literal_value_count", "distinct_unambiguous_value_count",
        "rows_with_missing_or_nonscalar_value", "rows_with_multiple_distinct_values"]
      hasKeys ms ("field" :: counts) [] && isIdentifier (value ms "field") && counts.all fun key => isCount (value ms key)
  | _ => false

/-- A bound of a time window. -/
def boundAccepted (j : Json) : Bool := j = .null || (py.utc_datetime j).isSome

/-- `RetainedEvidenceScope`. -/
def scopeAccepted : Json → Bool
  | .object ms =>
      let query_ids := items (value ms "query_ids")
      let filters := items (value ms "filters")
      hasKeys ms ["query_ids"] ["filters", "earliest_utc", "latest_utc"] &&
        isArray (value ms "query_ids") && query_ids.all isIdentifier &&
        (1 ≤ query_ids.length && query_ids.length ≤ 50) && query_ids.Nodup &&
        (get ms "filters").all isArray && filters.all filterAccepted && filters.length ≤ 8 &&
        (filters.map fun
          | .object f => value f "field"
          | _ => .null).Nodup &&
        boundAccepted py (value ms "earliest_utc") && boundAccepted py (value ms "latest_utc") &&
        (match py.utc_datetime (value ms "earliest_utc"), py.utc_datetime (value ms "latest_utc") with
          | some earliest, some latest =>
              value ms "earliest_utc" = .null || value ms "latest_utc" = .null || earliest < latest
          | _, _ => true)
  | _ => false

/-- `RetainedInventory.model_validate` accepts. -/
def inventoryAccepted : Json → Bool
  | .object ms =>
      let fields := items (value ms "fields")
      hasKeys ms ["scope", "raw_record_count", "fields", "limitations"] [] && scopeAccepted py (value ms "scope") &&
        isCount (value ms "raw_record_count") && isArray (value ms "fields") && fields.all fieldCountAccepted &&
        (1 ≤ fields.length && fields.length ≤ 32) && isArray (value ms "limitations") &&
        (items (value ms "limitations")).all isIdentifier
  | _ => false

/-- `MAX_STORED_QUESTION_INVENTORIES`. -/
def MAX_STORED_QUESTION_INVENTORIES : Nat := 500

/-- `measured.scope.query_ids`. -/
def measuredQueries (inventory : Json) : List Json :=
  match inventory with
  | .object ms =>
      match value ms "scope" with
      | .object scope => items (value scope "query_ids")
      | _ => []
  | _ => []

/-- Are all of these among the available ones? -/
def within (ids : List Json) (available : Option (List String)) : Bool :=
  available.all fun available => ids.all fun id => (available.map Json.string).contains id

/-- One question answer. -/
def check_answer (available_finding_ids available_query_ids : Option (List String)) (answer : Json) :
    Except Raised Unit :=
  match answer with
  | .object ms => do
      let finding_ids := items (value ms "finding_ids")
      require (["question_id", "question", "summary"].all (fun key => isText (value ms key)) &&
          ["finding_ids", "limitations"].all (fun key => isTexts (value ms key)) &&
          (!finding_ids.isEmpty || !(items (value ms "limitations")).isEmpty))
        "question answers require a summary and finding references or limitations"
      let coverage := (get ms "lead_coverage").getD (.array [])
      require (isArray coverage && (items coverage).all (leadAccepted finding_ids))
        "question lead coverage requires observed identity fields and findings or a limitation"
      require (within finding_ids available_finding_ids) "question answer references unavailable findings"
      let inventories := (get ms "inventories").getD (.array [])
      require (isArray inventories && (items inventories).length ≤ MAX_STORED_QUESTION_INVENTORIES)
        "question inventories must be a bounded array"
      (items inventories).forM fun inventory => do
        require (inventoryAccepted py inventory) "question inventory has invalid scope or quantities"
        require (within (measuredQueries inventory) available_query_ids)
          "question inventory references unavailable queries"
  | _ => .error (.report_validation_error "question answers require a summary and finding references or limitations")

/-- The keys of an entry of the query appendix. -/
def appendixKeys : List String :=
  ["query_id", "spl", "purpose", "indexes", "earliest_utc", "latest_utc", "execution_timestamp_utc", "splunk_job_id",
    "result_count", "status", "errors_or_truncation"]

/-- A timestamp of the query appendix; an overflow is not caught. -/
def check_timestamp (entry : Members) (key : String) : Except Raised Unit :=
  let refused := Raised.report_validation_error ("query appendix " ++ key ++ " must be an RFC3339 timestamp")
  match py.fromisoformat (replaceZ (py.text (value entry key))) with
  | none => .error refused
  | some stamp =>
      match utc stamp with
      | .ok _ => .ok ()
      | .error (.value_error _) | .error .type_error => .error refused
      | .error e => .error e

/-- One entry of the query appendix. -/
def check_entry : Json → Except Raised Unit
  | .object entry => do
      let absent := appendixKeys.filter fun key => (get entry key).isNone
      require absent.isEmpty ("query appendix entry missing: " ++ ", ".intercalate absent.mergeSort)
      ["earliest_utc", "latest_utc", "execution_timestamp_utc"].forM (check_timestamp py entry)
  | _ => .error (.report_validation_error "query appendix entries must be objects")

/-- `validate_report_content`. -/
def validate_report_content (content : Json)
    (available_finding_ids available_evidence_ids available_query_ids : Option (List String)) :
    Except Raised Members := do
  let normalized ← normalize_content content
  let missing := REQUIRED_SECTIONS.filter fun section_ => (get normalized (aliases section_)).isNone
  require missing.isEmpty ("missing required report sections: " ++ ", ".intercalate missing)
  textKeys.forM fun key => require (isText (value normalized key)) ("report section '" ++ key ++ "' must contain text")
  arrayKeys.forM fun key => require (isArray (value normalized key)) ("report section '" ++ key ++ "' must be an array")
  check_ids py normalized "finding_ids" available_finding_ids
  check_ids py normalized "evidence_ids" available_evidence_ids
  check_ids py normalized "query_ids" available_query_ids
  match get normalized "question_answers" with
  | none => pure ()
  | some answers => do
      require (isArray answers) "question_answers must be an array"
      (items answers).forM (check_answer py available_finding_ids available_query_ids)
  require (!(value normalized "disposition" = .string "supported" && (items (value normalized "evidence_ids")).isEmpty))
    "supported reports require retained evidence citations"
  (items (value normalized "query_appendix")).forM (check_entry py)
  return normalized

/-! ### What is accepted -/

section Accepted

variable {py : Interpreter} {af ae aq : Option (List String)}

theorem require_eq_ok {holds : Bool} {message : String} {u : Unit} : require holds message = .ok u ↔ holds = true := by
  cases holds <;> simp [require]

/-- What the validator checks of the keys that are shown. -/
structure Accepted (py : Interpreter) (af aq : Option (List String)) (content : Members) : Prop where
  texts : ∀ key ∈ textKeys, isText (value content key) = true
  arrays : ∀ key ∈ arrayKeys, isArray (value content key) = true
  answers : ∀ answers, get content "question_answers" = some answers →
    isArray answers = true ∧ ∀ answer ∈ items answers, check_answer py af aq answer = .ok ()
  entries : ∀ entry ∈ items (value content "query_appendix"), check_entry py entry = .ok ()

theorem accepted {content : Json} {normalized : Members}
    (h : validate_report_content py content af ae aq = .ok normalized) :
    content = .object normalized ∧ Accepted py af aq normalized := by
  simp only [validate_report_content, bind_eq_ok, require_eq_ok, pure, Except.pure] at h
  obtain ⟨ms, hnormal, _, -, _, htexts, _, harrays, _, -, _, -, _, -, h⟩ := h
  have hrest : (∀ answers, get ms "question_answers" = some answers →
      isArray answers = true ∧ ∀ answer ∈ items answers, check_answer py af aq answer = .ok ()) ∧
      (items (value ms "query_appendix")).forM (check_entry py) = .ok () ∧ ms = normalized := by
    split at h
    next hnone =>
      simp only [bind_eq_ok, require_eq_ok, Except.ok.injEq] at h
      obtain ⟨_, -, _, hentries, hsame⟩ := h
      exact ⟨fun answers hget => absurd (hnone.symm.trans hget) (by simp), hentries, hsame⟩
    next answers hsome =>
      simp only [bind_eq_ok, require_eq_ok, Except.ok.injEq] at h
      obtain ⟨_, harray, _, hall, _, -, _, hentries, hsame⟩ := h
      refine ⟨fun answers' hget => ?_, hentries, hsame⟩
      cases hsome.symm.trans hget
      exact ⟨harray, forM_eq_ok.mp hall⟩
  obtain ⟨hanswers, hentries, rfl⟩ := hrest
  have hcontent : content = .object ms := by
    cases content with
    | object ms' =>
        simp only [normalize_content, bind_eq_ok, pure, Except.pure, Except.ok.injEq] at hnormal
        obtain ⟨_, -, _, -, rfl⟩ := hnormal
        rfl
    | _ => cases hnormal
  refine ⟨hcontent, ?_, ?_, hanswers, forM_eq_ok.mp hentries⟩
  · exact fun key hkey => require_eq_ok.mp (forM_eq_ok.mp htexts key hkey)
  · exact fun key hkey => require_eq_ok.mp (forM_eq_ok.mp harrays key hkey)

end Accepted

end ReportContent

end ThreatHunting
