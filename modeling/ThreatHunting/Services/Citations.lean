import ThreatHunting.Text
import ThreatHunting.Domain.Common

/-!
# ThreatHunting.Services.Citations

`services/citations.py`: the checks on what a report cites. The citations of all sections
are pooled before they are checked. `Admissible` says what an accepted report's pool
satisfies; as a record cited twice does not, no section of an accepted report can take up
a record another section cites.
-/

namespace ThreatHunting

/-- `Disposition`. -/
inductive Disposition
  | supported | not_supported_within_scope | inconclusive | budget_exhausted | failed
  deriving DecidableEq, Repr

namespace Citations

/-- What `_base_checks` reads of an evidence record. `envelope` is its canonical JSON text. -/
structure EvidenceRecord where
  owner_id : Option Uuid
  hunt_id : Option Uuid
  query_id : Option Uuid
  truncated : Bool
  sha256 : Option String
  envelope : Text
  deriving DecidableEq

/-- What `_base_checks` reads of a query record. -/
structure QueryRecord where
  owner_id : Option Uuid
  hunt_id : Option Uuid
  status : Text
  outcome : Option Text
  truncated : Bool
  partial_fetch : Bool
  deriving DecidableEq

/-- `CitationValidator`: where evidence and queries are looked up, and the digest of an envelope. -/
structure CitationValidator where
  evidence_lookup : Uuid → Option EvidenceRecord
  query_lookup : Uuid → Option QueryRecord
  evidence_sha256 : Text → String

/-- `validate_sha256`. -/
def isSha256 (value : String) : Bool :=
  value.length == 64 && value.toList.all (· ∈ "0123456789abcdef".toList)

/-- `verify_evidence_integrity`: the stored hash is a digest, and that of the envelope. -/
def verify_evidence_integrity (sha256 : Text → String) (evidence : EvidenceRecord) : Bool :=
  evidence.sha256.any fun stored => isSha256 stored && stored == sha256 evidence.envelope

/-- The loop of `_dedupe`: the first citation of each target, and an issue for every other. -/
def dedupeFrom (seen : List Uuid) : List Uuid → List Uuid × List String
  | [] => ([], [])
  | value :: values =>
      if value ∈ seen then
        let (unique, issues) := dedupeFrom seen values
        (unique, ("duplicate_citation:" ++ value) :: issues)
      else
        let (unique, issues) := dedupeFrom (value :: seen) values
        (value :: unique, issues)

/-- `_dedupe`. -/
def dedupe (values : List Uuid) : List Uuid × List String := dedupeFrom [] values

/-- An issue that applies if `holds`. -/
def issueIf (holds : Bool) (issue : String) : List String := if holds then [issue] else []

/-- What the checks are about: the citations, whose they are, and what they have to show. -/
structure Claim where
  evidence_ids : List Uuid
  query_ids : List Uuid
  owner_id : Uuid
  hunt_id : Uuid
  require_evidence : Bool
  require_query : Bool
  reject_evidence : Bool
  limitations : List Text

/-- `CitationValidationResult`. -/
structure CitationValidationResult where
  valid : Bool
  issues : List String
  evidence_ids : List Uuid
  query_ids : List Uuid
  deriving DecidableEq

namespace CitationValidator

variable (v : CitationValidator)

/-- The issues of one cited evidence record. -/
def evidenceIssues (owner_id hunt_id evidence_id : Uuid) : List String :=
  match v.evidence_lookup evidence_id with
  | none => ["evidence_not_found:" ++ evidence_id]
  | some evidence =>
      issueIf (evidence.owner_id != some owner_id) ("evidence_owner_mismatch:" ++ evidence_id)
        ++ issueIf (evidence.hunt_id != some hunt_id) ("evidence_hunt_mismatch:" ++ evidence_id)
        ++ issueIf (!verify_evidence_integrity v.evidence_sha256 evidence)
          ("evidence_integrity_mismatch:" ++ evidence_id)
        ++ issueIf evidence.query_id.isNone ("evidence_query_missing:" ++ evidence_id)

/-- The query an evidence record was retrieved by. -/
def lineage (evidence_id : Uuid) : Option Uuid :=
  (v.evidence_lookup evidence_id).bind EvidenceRecord.query_id

/-- The queries to check: those cited, and those in the lineage of the cited evidence. -/
def lineageQueries (queries : List Uuid) : List Uuid → List Uuid
  | [] => queries
  | evidence_id :: rest =>
      match v.lineage evidence_id with
      | some query_id =>
          lineageQueries (if query_id ∈ queries then queries else queries ++ [query_id]) rest
      | none => lineageQueries queries rest

/-- Does a cited record say that its result was truncated? -/
def citesTruncated (evidence_ids : List Uuid) : Bool :=
  evidence_ids.any fun evidence_id => (v.evidence_lookup evidence_id).any EvidenceRecord.truncated

/-- Is a truncation mentioned among the limitations? -/
def disclosed (limitations : List Text) : Bool :=
  limitations.any fun value => decide ("trunc".toList <:+: lower value)

/-- The query succeeded and its ledger entry is complete. -/
def succeeded (query : QueryRecord) : Bool :=
  lower query.status ∈ ["completed", "succeeded", "success"].map String.toList
    && query.outcome.all fun outcome => lower outcome ∈ ["success", "succeeded"].map String.toList

/-- The issues of one query. -/
def queryIssues (owner_id hunt_id : Uuid) (require_query : Bool) (query_id : Uuid) : List String :=
  match v.query_lookup query_id with
  | none => ["query_not_found:" ++ query_id]
  | some query =>
      issueIf (query.owner_id != some owner_id) ("query_owner_mismatch:" ++ query_id)
        ++ issueIf (query.hunt_id != some hunt_id) ("query_hunt_mismatch:" ++ query_id)
        ++ issueIf (!succeeded query) ("query_not_completed:" ++ query_id)
        ++ issueIf (require_query && (query.truncated || query.partial_fetch))
          ("query_coverage_incomplete:" ++ query_id)

/-- `_base_checks`. -/
def base_checks (c : Claim) : CitationValidationResult :=
  let (unique_evidence, duplicate_evidence) := dedupe c.evidence_ids
  let (unique_queries, duplicate_queries) := dedupe c.query_ids
  let queries := v.lineageQueries unique_queries unique_evidence
  let issues :=
    duplicate_evidence ++ duplicate_queries
      ++ issueIf (c.require_evidence && unique_evidence.isEmpty) "evidence_required"
      ++ issueIf (c.require_query && unique_queries.isEmpty) "completed_query_required"
      ++ issueIf (c.reject_evidence && !unique_evidence.isEmpty)
        "evidence_not_allowed_for_query_grounded_claim"
      ++ unique_evidence.flatMap (v.evidenceIssues c.owner_id c.hunt_id)
      ++ issueIf (v.citesTruncated unique_evidence && !disclosed c.limitations) "truncation_not_disclosed"
      ++ queries.flatMap (v.queryIssues c.owner_id c.hunt_id c.require_query)
  { valid := issues.isEmpty
    issues := issues.eraseDups
    evidence_ids := unique_evidence
    query_ids := queries }

end CitationValidator

/-- What `validate_report` reads of a `ReportContent`: the citations of its sections, its
limitations and its disposition. -/
structure ReportContent where
  evidence_ids : List Uuid
  query_ids : List Uuid
  conclusion_evidence_ids : List Uuid
  conclusion_query_ids : List Uuid
  entities : List (List Uuid)
  timeline : List (List Uuid)
  limitations : List Text
  disposition : Disposition
  deriving DecidableEq

/-- The evidence citations of all sections, in the order they are pooled. -/
def ReportContent.citedEvidence (r : ReportContent) : List Uuid :=
  r.evidence_ids ++ r.conclusion_evidence_ids ++ r.entities.flatten ++ r.timeline.flatten

/-- The query citations of all sections. -/
def ReportContent.citedQueries (r : ReportContent) : List Uuid := r.query_ids ++ r.conclusion_query_ids

/-- The claim a report makes. -/
def ReportContent.claim (r : ReportContent) (owner_id hunt_id : Uuid) : Claim where
  evidence_ids := r.citedEvidence
  query_ids := r.citedQueries
  owner_id := owner_id
  hunt_id := hunt_id
  require_evidence := r.disposition == .supported
  require_query := r.disposition == .not_supported_within_scope
  reject_evidence := r.disposition == .not_supported_within_scope
  limitations := r.limitations

/-- `validate_report`. -/
def CitationValidator.validate_report (v : CitationValidator) (report : ReportContent)
    (owner_id hunt_id : Uuid) : CitationValidationResult :=
  v.base_checks (report.claim owner_id hunt_id)

/-! ### What an accepted claim satisfies -/

theorem issueIf_eq_nil {holds : Bool} {issue : String} : issueIf holds issue = [] ↔ holds = false := by
  cases holds <;> simp [issueIf]

theorem mem_dedupeFrom {seen values : List Uuid} {x : Uuid} :
    x ∈ (dedupeFrom seen values).1 ↔ x ∈ values ∧ x ∉ seen := by
  induction values generalizing seen with
  | nil => simp [dedupeFrom]
  | cons value values ih =>
      by_cases hseen : value ∈ seen
      · have hne : x ∉ seen → x ≠ value := fun hx heq => hx (heq ▸ hseen)
        simp only [dedupeFrom, hseen, if_true, ih, List.mem_cons]
        tauto
      · have hself : x = value → x ∉ seen := fun heq => heq ▸ hseen
        simp only [dedupeFrom, hseen, if_false, ih, List.mem_cons]
        tauto

theorem dedupeFrom_issues {seen values : List Uuid} :
    (dedupeFrom seen values).2 = [] ↔ values.Nodup ∧ ∀ x ∈ values, x ∉ seen := by
  induction values generalizing seen with
  | nil => simp [dedupeFrom]
  | cons value values ih =>
      by_cases hseen : value ∈ seen
      · simp [dedupeFrom, hseen]
      · simp only [dedupeFrom, hseen, if_false, ih, List.nodup_cons, List.mem_cons, not_or]
        constructor
        · rintro ⟨hnodup, hnew⟩
          refine ⟨⟨fun hmem => (hnew value hmem).1 rfl, hnodup⟩, ?_⟩
          rintro x (rfl | hx)
          · exact hseen
          · exact (hnew x hx).2
        · rintro ⟨⟨hmem, hnodup⟩, hnew⟩
          exact ⟨hnodup, fun x hx => ⟨fun heq => hmem (heq ▸ hx), hnew x (.inr hx)⟩⟩

@[simp] theorem mem_dedupe {values : List Uuid} {x : Uuid} : x ∈ (dedupe values).1 ↔ x ∈ values := by
  simp [dedupe, mem_dedupeFrom]

theorem dedupe_issues {values : List Uuid} : (dedupe values).2 = [] ↔ values.Nodup := by
  simp [dedupe, dedupeFrom_issues]

theorem dedupe_eq_nil {values : List Uuid} : (dedupe values).1 = [] ↔ values = [] := by
  simp only [List.eq_nil_iff_forall_not_mem, mem_dedupe]

namespace CitationValidator

variable {v : CitationValidator} {owner_id hunt_id : Uuid}

theorem mem_lineageQueries {queries evidence_ids : List Uuid} {q : Uuid} :
    q ∈ v.lineageQueries queries evidence_ids ↔
      q ∈ queries ∨ ∃ e ∈ evidence_ids, v.lineage e = some q := by
  induction evidence_ids generalizing queries with
  | nil => simp [lineageQueries]
  | cons e evidence_ids ih =>
      rw [lineageQueries]
      cases hq : v.lineage e with
      | none => simp [ih, hq]
      | some query_id =>
          by_cases hmem : query_id ∈ queries
          · simp only [hmem, if_true, ih, List.mem_cons, exists_eq_or_imp, hq, Option.some.injEq]
            constructor
            · tauto
            · rintro (h | rfl | h)
              · exact .inl h
              · exact .inl hmem
              · exact .inr h
          · simp only [hmem, if_false, ih, List.mem_append, List.mem_cons, List.not_mem_nil, or_false,
              exists_eq_or_imp, hq, Option.some.injEq]
            constructor
            · rintro ((h | rfl) | h) <;> simp_all
            · rintro (h | rfl | h) <;> simp_all

/-- A record of the hunt and owner, intact and with a lineage. -/
def SoundEvidence (v : CitationValidator) (owner_id hunt_id evidence_id : Uuid) : Prop :=
  ∃ evidence, v.evidence_lookup evidence_id = some evidence ∧ evidence.owner_id = some owner_id ∧
    evidence.hunt_id = some hunt_id ∧ verify_evidence_integrity v.evidence_sha256 evidence = true ∧
    evidence.query_id.isSome

/-- A completed query of the hunt and owner, complete in what it retrieved where that matters. -/
def SoundQuery (v : CitationValidator) (owner_id hunt_id : Uuid) (require_query : Bool)
    (query_id : Uuid) : Prop :=
  ∃ query, v.query_lookup query_id = some query ∧ query.owner_id = some owner_id ∧
    query.hunt_id = some hunt_id ∧ succeeded query = true ∧
    (require_query = true → query.truncated = false ∧ query.partial_fetch = false)

theorem evidenceIssues_eq_nil {e : Uuid} :
    v.evidenceIssues owner_id hunt_id e = [] ↔ v.SoundEvidence owner_id hunt_id e := by
  rw [evidenceIssues, SoundEvidence]
  cases v.evidence_lookup e with
  | none => simp
  | some evidence => cases hq : evidence.query_id <;> simp [issueIf_eq_nil, hq]

theorem queryIssues_eq_nil {require_query : Bool} {q : Uuid} :
    v.queryIssues owner_id hunt_id require_query q = [] ↔
      v.SoundQuery owner_id hunt_id require_query q := by
  rw [queryIssues, SoundQuery]
  cases v.query_lookup q with
  | none => simp
  | some query => cases require_query <;> simp [issueIf_eq_nil]

/-- What the pooled citations of an accepted claim satisfy. -/
structure Admissible (v : CitationValidator) (c : Claim) : Prop where
  evidence_distinct : c.evidence_ids.Nodup
  queries_distinct : c.query_ids.Nodup
  evidence_given : c.require_evidence = true → c.evidence_ids ≠ []
  queries_given : c.require_query = true → c.query_ids ≠ []
  evidence_excluded : c.reject_evidence = true → c.evidence_ids = []
  evidence_sound : ∀ e ∈ c.evidence_ids, v.SoundEvidence c.owner_id c.hunt_id e
  truncation_disclosed : (∃ e ∈ c.evidence_ids, ∃ evidence, v.evidence_lookup e = some evidence ∧
    evidence.truncated = true) → disclosed c.limitations = true
  queries_sound : ∀ q, (q ∈ c.query_ids ∨ ∃ e ∈ c.evidence_ids, v.lineage e = some q) →
    v.SoundQuery c.owner_id c.hunt_id c.require_query q

theorem citesTruncated_iff {evidence_ids : List Uuid} :
    v.citesTruncated (dedupe evidence_ids).1 = true ↔
      ∃ e ∈ evidence_ids, ∃ evidence, v.evidence_lookup e = some evidence ∧ evidence.truncated = true := by
  simp only [citesTruncated, List.any_eq_true, mem_dedupe, Option.any_eq_true]

/-- **A claim is accepted** exactly when its pooled citations are admissible. -/
theorem base_checks_valid {c : Claim} : (v.base_checks c).valid = true ↔ v.Admissible c := by
  have hpool : ∀ q, q ∈ v.lineageQueries (dedupe c.query_ids).1 (dedupe c.evidence_ids).1 ↔
      q ∈ c.query_ids ∨ ∃ e ∈ c.evidence_ids, v.lineage e = some q := by
    simp [mem_lineageQueries]
  have hdisclosed : (v.citesTruncated (dedupe c.evidence_ids).1 && !disclosed c.limitations) = false ↔
      ((∃ e ∈ c.evidence_ids, ∃ evidence, v.evidence_lookup e = some evidence ∧
        evidence.truncated = true) → disclosed c.limitations = true) := by
    rw [← citesTruncated_iff]
    cases v.citesTruncated (dedupe c.evidence_ids).1 <;> simp
  simp only [base_checks, List.isEmpty_iff, List.append_eq_nil_iff, dedupe_issues, issueIf_eq_nil,
    List.flatMap_eq_nil_iff, mem_dedupe, evidenceIssues_eq_nil, hpool, queryIssues_eq_nil, hdisclosed,
    Bool.and_eq_false_iff, List.isEmpty_eq_false_iff, Bool.not_eq_false', dedupe_eq_nil, ne_eq]
  constructor
  · rintro ⟨⟨⟨⟨⟨⟨⟨h₁, h₂⟩, h₃⟩, h₄⟩, h₅⟩, h₆⟩, h₇⟩, h₈⟩
    exact ⟨h₁, h₂, fun h => h₃.resolve_left (by simp [h]), fun h => h₄.resolve_left (by simp [h]),
      fun h => h₅.resolve_left (by simp [h]), h₆, h₇, h₈⟩
  · intro h
    have himp : ∀ {b : Bool} {p : Prop}, (b = true → p) → b = false ∨ p := by
      intro b p hbp
      cases b with
      | false => exact .inl rfl
      | true => exact .inr (hbp rfl)
    exact ⟨⟨⟨⟨⟨⟨⟨h.evidence_distinct, h.queries_distinct⟩, himp h.evidence_given⟩, himp h.queries_given⟩,
      himp h.evidence_excluded⟩, h.evidence_sound⟩, h.truncation_disclosed⟩, h.queries_sound⟩

end CitationValidator

/-! ### Citing a record in another section -/

/-- A section of a report that cites evidence. -/
inductive Section
  | summary | conclusion | entity (n : Nat) | timeline (n : Nat)
  deriving DecidableEq, Repr

namespace ReportContent

/-- The evidence a section cites. -/
def citations (r : ReportContent) : Section → List Uuid
  | .summary => r.evidence_ids
  | .conclusion => r.conclusion_evidence_ids
  | .entity n => (r.entities[n]?).getD []
  | .timeline n => (r.timeline[n]?).getD []

/-- The report with one more citation in a section, where it has that section. -/
def cite (r : ReportContent) (id : Uuid) : Section → ReportContent
  | .summary => { r with evidence_ids := r.evidence_ids ++ [id] }
  | .conclusion => { r with conclusion_evidence_ids := r.conclusion_evidence_ids ++ [id] }
  | .entity n => { r with entities := r.entities.modify n (· ++ [id]) }
  | .timeline n => { r with timeline := r.timeline.modify n (· ++ [id]) }

theorem mem_citedEvidence {r : ReportContent} {id : Uuid} :
    id ∈ r.citedEvidence ↔ ∃ s, id ∈ r.citations s := by
  have hmem : ∀ sections : List (List Uuid), id ∈ sections.flatten ↔ ∃ n : Nat, id ∈ (sections[n]?).getD [] := by
    intro sections
    rw [List.mem_flatten]
    constructor
    · rintro ⟨ids, hids, hid⟩
      obtain ⟨n, hn⟩ := List.mem_iff_getElem?.mp hids
      exact ⟨n, by simpa [hn] using hid⟩
    · rintro ⟨n, hid⟩
      cases hn : sections[n]? with
      | none => simp [hn] at hid
      | some ids => exact ⟨ids, List.mem_of_getElem? hn, by simpa [hn] using hid⟩
  simp only [citedEvidence, List.mem_append, hmem]
  constructor
  · rintro (((h | h) | ⟨n, h⟩) | ⟨n, h⟩)
    · exact ⟨.summary, h⟩
    · exact ⟨.conclusion, h⟩
    · exact ⟨.entity n, h⟩
    · exact ⟨.timeline n, h⟩
  · rintro ⟨s, h⟩
    cases s with
    | summary => exact .inl (.inl (.inl h))
    | conclusion => exact .inl (.inl (.inr h))
    | entity n => exact .inl (.inr ⟨n, h⟩)
    | timeline n => exact .inr ⟨n, h⟩

theorem flatten_modify (sections : List (List Uuid)) (n : Nat) (id : Uuid) :
    sections.modify n (· ++ [id]) = sections ∨
      (sections.modify n (· ++ [id])).flatten.Perm (id :: sections.flatten) := by
  induction sections generalizing n with
  | nil => simp
  | cons ids sections ih =>
      cases n with
      | zero =>
          right
          simp only [List.modify_zero_cons, List.flatten_cons, List.append_assoc, List.singleton_append]
          exact List.perm_middle
      | succ n =>
          rw [List.modify_succ_cons]
          rcases ih n with heq | hperm
          · left
            rw [heq]
          · right
            rw [List.flatten_cons, List.flatten_cons]
            exact (hperm.append_left ids).trans List.perm_middle

/-- One more citation leaves the report as it is, or puts the record into its pool once more. -/
theorem cite_pool (r : ReportContent) (id : Uuid) (s : Section) :
    r.cite id s = r ∨ (r.cite id s).citedEvidence.Perm (id :: r.citedEvidence) := by
  cases s with
  | summary =>
      right
      simp only [citedEvidence, cite, List.append_assoc, List.singleton_append]
      exact List.perm_middle
  | conclusion =>
      right
      simp only [citedEvidence, cite, List.append_assoc, List.singleton_append]
      have hswap := (@List.perm_middle _ id r.conclusion_evidence_ids
        (r.entities.flatten ++ r.timeline.flatten)).append_left r.evidence_ids
      exact hswap.trans List.perm_middle
  | entity n =>
      rcases flatten_modify r.entities n id with heq | hperm
      · left
        rw [cite, heq]
      · right
        have hfront := (hperm.append_left (r.evidence_ids ++ r.conclusion_evidence_ids)).trans
          List.perm_middle
        exact hfront.append_right r.timeline.flatten
  | timeline n =>
      rcases flatten_modify r.timeline n id with heq | hperm
      · left
        rw [cite, heq]
      · right
        exact (hperm.append_left _).trans List.perm_middle

end ReportContent

variable {v : CitationValidator} {report : ReportContent} {owner_id hunt_id : Uuid}

/-- What a cited record is supposed to be: one of the hunt and owner, intact, retrieved by a
completed query, and with that query's truncation disclosed. -/
def Grounded (v : CitationValidator) (owner_id hunt_id : Uuid) (limitations : List Text)
    (evidence_id : Uuid) : Prop :=
  ∃ evidence query_id query, v.evidence_lookup evidence_id = some evidence ∧
    evidence.owner_id = some owner_id ∧ evidence.hunt_id = some hunt_id ∧
    verify_evidence_integrity v.evidence_sha256 evidence = true ∧ evidence.query_id = some query_id ∧
    v.query_lookup query_id = some query ∧ CitationValidator.succeeded query = true ∧
    (query.truncated = true → CitationValidator.disclosed limitations = true)

/-- What the validation of a report should establish: an accepted report's citations are
grounded, and citing in one section what another section cites validly changes nothing. -/
structure CitationValidity (v : CitationValidator) (report : ReportContent) (owner_id hunt_id : Uuid) :
    Prop where
  grounded : (v.validate_report report owner_id hunt_id).valid = true →
    ∀ e ∈ report.citedEvidence, Grounded v owner_id hunt_id report.limitations e
  recited : ∀ s t e, s ≠ t → e ∈ report.citations t → Grounded v owner_id hunt_id report.limitations e →
    (v.validate_report (report.cite e s) owner_id hunt_id).valid =
      (v.validate_report report owner_id hunt_id).valid

/-- A report that cites a record twice is rejected. -/
theorem validate_report_recited {e : Uuid} {s : Section} (he : e ∈ report.citedEvidence)
    (hcite : report.cite e s ≠ report) :
    (v.validate_report (report.cite e s) owner_id hunt_id).valid = false := by
  have hperm := (report.cite_pool e s).resolve_left hcite
  by_contra hvalid
  have hnodup := (CitationValidator.base_checks_valid.mp (Bool.not_eq_false _ ▸ hvalid)).evidence_distinct
  have : (e :: report.citedEvidence).Nodup := hperm.nodup_iff.mp hnodup
  exact (List.nodup_cons.mp this).1 he

/-- A hunt with one record, retrieved by one completed query. -/
def sampleValidator (query_truncated : Bool) : CitationValidator where
  evidence_lookup := fun id => if id = "e1" then some
    { owner_id := some "o", hunt_id := some "h", query_id := some "q1", truncated := false,
      sha256 := some "0000000000000000000000000000000000000000000000000000000000000000",
      envelope := [] } else none
  query_lookup := fun id => if id = "q1" then some
    { owner_id := some "o", hunt_id := some "h", status := "completed".toList, outcome := none,
      truncated := query_truncated, partial_fetch := false } else none
  evidence_sha256 := fun _ => "0000000000000000000000000000000000000000000000000000000000000000"

/-- A report whose summary cites that record. -/
def sampleReport : ReportContent where
  evidence_ids := ["e1"]
  query_ids := []
  conclusion_evidence_ids := []
  conclusion_query_ids := []
  entities := [[]]
  timeline := []
  limitations := []
  disposition := .supported

end Citations

end ThreatHunting
