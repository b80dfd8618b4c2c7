import ThreatHunting.Services.ReportContent

/-!
# ThreatHunting.Services.HtmlReport

`render_report_html` of `services/reports.py`. The sections of a content are passages of markup and
of escaped texts. They are put into the template by replacing the markers of its holes one after the
other, so that a text in one section is scanned for the markers of the sections after it.
-/

namespace ThreatHunting

namespace HtmlReport

open Fallible
open ModelOutput (Members get truthy)
open EvidenceLookup (isoformat decimal value)
open ReportContent
open Spl (Time)
open Template (Fragment)

/-! ### The template -/

/-- What is before the first heading of `templates/report.html`. -/
def report_head : String := "<!doctype html>
<html lang=\"en\">
<head>
  <meta charset=\"utf-8\">
  <title>Threat hunting report</title>
  <style>
    @page \x7b size: A4; margin: 18mm 16mm 18mm; \x7d
    body \x7b color: #1d2733; font-family: sans-serif; font-size: 10pt; line-height: 1.4; \x7d
    h1 \x7b color: #102a43; font-size: 20pt; margin: 0 0 16pt; \x7d
    h2 \x7b border-bottom: 1px solid #bcccdc; color: #243b53; font-size: 14pt; margin: 18pt 0 7pt; padding-bottom: 3pt; \x7d
    h3 \x7b color: #334e68; font-size: 11pt; margin: 9pt 0 3pt; \x7d
    ul \x7b margin-top: 3pt; padding-left: 18pt; \x7d
    li \x7b margin: 2pt 0; \x7d
    pre \x7b background: #f0f4f8; border: 1px solid #d9e2ec; padding: 6pt; white-space: pre-wrap; word-wrap: break-word; \x7d
    .query \x7b page-break-inside: avoid; \x7d
    .label \x7b color: #486581; font-weight: bold; \x7d
  </style>
</head>
<body>
  <h1>Threat Hunting Report</h1>"

/-- The heading of a section, and the line of its hole up to the marker. -/
def heading (title : String) : List Char := "\n  <h2>".toList ++ title.toList ++ "</h2>\n  ".toList

/-- A marker. -/
def marker (name : String) : List Char := '{' :: '{' :: (name.toList ++ ['}', '}'])

/-- The holes of the template: what is before each, and its marker. -/
def holes : List (List Char × List Char) :=
  [(report_head.toList ++ heading "Hunt hypothesis", marker "HYPOTHESIS"),
    (heading "Objective and scope", marker "OBJECTIVE"),
    (heading "Data sources used", marker "SOURCES"),
    (heading "Findings", marker "FINDINGS"),
    (heading "Selected evidence excerpts and counts", marker "EVIDENCE"),
    (heading "Entities", marker "ENTITIES"),
    (heading "Timeline", marker "TIMELINE"),
    (heading "Coverage and limitations", marker "COVERAGE"),
    (heading "Conclusion and disposition", marker "CONCLUSION"),
    (heading "Query appendix", marker "APPENDIX")]

/-- What is after the last hole. -/
def report_ending : List Char := "\n</body>\n</html>\n".toList

/-- The template, with values for its holes. -/
def slots (values : List (List Char)) : List (Template.Slot Char) :=
  List.zipWith (fun hole value => ⟨hole.1, hole.2, value⟩) holes values

/-! ### Passages -/

/-- `html.escape(text, quote=True)`, of one character. -/
def html_escape (c : Char) : List Char :=
  if c = '&' then "&amp;".toList
  else if c = '<' then "&lt;".toList
  else if c = '>' then "&gt;".toList
  else if c = '"' then "&quot;".toList
  else if c = '\'' then "&#x27;".toList
  else [c]

/-- A passage of a section. -/
abbrev Passage := List (Fragment Char)

/-- Markup as the source writes it. -/
def m (markup : String) : Fragment Char := .markup markup.toList

/-- `_as_text`. -/
def as_text : Json → String
  | .null => "unknown"
  | .string s => s
  | j => String.ofList (Json.dumps (Json.sorted j))

/-- A text that is escaped. -/
def t (text : String) : Fragment Char := .text text.toList

/-- `esc(value)`. -/
def esc (value : Json) : Fragment Char := t (as_text value)

/-- `list_items`. -/
def list_items (values : List Json) : Passage :=
  if values.isEmpty then [m "<li>None recorded</li>"] else values.flatMap fun item => [m "<li>", esc item, m "</li>"]

/-! ### Times -/

/-- What `isoformat` writes for a distance from UTC. -/
def utcoffset_text (utcoffset : Time) : List Char :=
  let seconds := utcoffset.natAbs / 1000000
  let fraction := utcoffset.natAbs % 1000000
  (if utcoffset < 0 then '-' else '+') :: decimal 2 (seconds / 3600) ++ ':' :: decimal 2 (seconds / 60 % 60) ++
    (if seconds % 60 = 0 ∧ fraction = 0 then [] else ':' :: decimal 2 (seconds % 60)) ++
    (if fraction = 0 then [] else '.' :: decimal 6 fraction)

/-- `local.isoformat()` of a time in a zone; `isoformat` itself ends in a `Z`. -/
def local_text (wall utcoffset : Time) : String :=
  String.ofList ((isoformat wall).toList.dropLast ++ utcoffset_text utcoffset)

variable (py : Interpreter)

/-- What is shown of a time in UTC and in the display zone. -/
def both_times (time : Time) (utcoffset : Time → Time) (display_timezone : String) : Except Raised Passage :=
  -- `astimezone` fails where the clocks of the zone would show a year before 1 or after 9999
  if inRange (time + utcoffset time) then
    .ok [t (isoformat time), m " (UTC); ", t (local_text (time + utcoffset time) (utcoffset time)), m " (",
      t display_timezone, m ")"]
  else .error .overflow_error

/-- `_timestamp`. -/
def timestamp (value : Json) (utcoffset : Time → Time) (display_timezone : String) : Except Raised Passage :=
  match value with
  | .null => .ok [m "unknown"]
  | .string s =>
      if s = "unknown" then .ok [m "unknown"]
      else
        match py.fromisoformat (replaceZ s) with
        | none => .ok [t s]
        | some stamp => do both_times (← utc stamp) utcoffset display_timezone
  | j => .ok [esc j]

/-! ### Question answers -/

/-- `value or text`, in a formatted string. -/
def orText (value : Json) (text : String) : String := if truthy value then py.text value else text

/-- `value.replace("_", " ")`. -/
def spaced (value : Json) : Except Raised String :=
  match value with
  | .string s => .ok (String.ofList (Template.replace ['_'] [' '] s.toList))
  | _ => .error .attribute_error

/-- `", ".join(values)`. -/
def joined (separator : String) (values : List Json) : Except Raised String := do
  let texts ← values.mapM fun
    | .string s => .ok s
    | _ => .error Raised.type_error
  return separator.intercalate texts

/-- One filter of an inventory's scope. -/
def filter_text (filter : Json) : Except Raised String := do
  let filter ← dictionary filter
  let field ← item filter "field"
  let value ← item filter "value"
  return py.text field ++ " = " ++ String.ofList (Json.dumps value)

/-- One field of an inventory. -/
def field_text (field : Json) : Except Raised String := do
  let field ← dictionary field
  let name ← spaced (← item field "field")
  let distinct ← item field "distinct_literal_value_count"
  let unambiguous ← item field "distinct_unambiguous_value_count"
  let missing ← item field "rows_with_missing_or_nonscalar_value"
  let multiple ← item field "rows_with_multiple_distinct_values"
  return name ++ ": " ++ py.text distinct ++ " distinct literal values; " ++ py.text unambiguous ++
    " distinct values in unambiguous rows; " ++ py.text missing ++ " rows missing a scalar value; " ++
    py.text multiple ++ " rows with multiple values."

/-- `_inventory_text`. -/
def inventory_text (inventory : Json) : Except Raised (List String) := do
  let inventory ← dictionary inventory
  let scope ← dictionary (← item inventory "scope")
  let filters ← (← elements (← item scope "filters")).mapM (filter_text py)
  let filters := if "; ".intercalate filters = "" then "no additional field filters" else "; ".intercalate filters
  let count ← item inventory "raw_record_count"
  let queries ← joined ", " (← elements (← item scope "query_ids"))
  let earliest ← item scope "earliest_utc"
  let latest ← item scope "latest_utc"
  let fields ← (← elements (← item inventory "fields")).mapM (field_text py)
  let limitations ← elements (← item inventory "limitations")
  return ["Measured inventory: " ++ py.text count ++ " retained raw rows. Repeated representations may remain.",
      "Selected search references: " ++ queries ++ ".",
      "Scope: " ++ filters ++ "; from " ++ orText py earliest "the selected search start" ++ " to " ++
        orText py latest "the selected search end" ++ " (end excluded)."] ++
    fields ++ limitations.map fun limitation => "Inventory limitation: " ++ py.text limitation

/-- One entry of the lead coverage. -/
def lead_text (lead : Json) : Except Raised String := do
  let lead ← dictionary lead
  let fields ← match ← item lead "identity_fields" with
    | .object fields => .ok fields
    | _ => .error Raised.attribute_error
  let names ← fields.mapM fun field => do return (← spaced (.string field.1)) ++ ": " ++ py.text field.2
  let names := if "; ".intercalate names = "" then "Identity fields unavailable" else "; ".intercalate names
  let findings ← length (← item lead "finding_ids")
  let limitation ← item lead "limitation"
  return "Advisory lead (observed identity fields): " ++ names ++ ". " ++ toString findings ++ " finding(s) linked." ++
    (if truthy limitation then " Unanswered or limited: " ++ py.text limitation else " Analysis still requires review.")

/-- `_question_answer_text`. -/
def question_answer_text (answer : Json) : Except Raised (List String) := do
  let answer ← dictionary answer
  let question_id ← item answer "question_id"
  let question ← item answer "question"
  let summary ← item answer "summary"
  let findings ← length (← item answer "finding_ids")
  let limitations ← elements (← item answer "limitations")
  let inventories ← (← elements ((get answer "inventories").getD (.array []))).mapM (inventory_text py)
  let leads ← (← elements ((get answer "lead_coverage").getD (.array []))).mapM (lead_text py)
  return ["Question " ++ py.text question_id ++ ": " ++ py.text question, "Answer: " ++ py.text summary,
      toString findings ++ " finding(s) retained; full details are available in this hunt's results."] ++
    limitations.map (fun limitation => "Limitation: " ++ py.text limitation) ++ inventories.flatten ++ leads

/-! ### Sections -/

/-- One entry of the timeline. -/
def timeline_row (utcoffset : Time → Time) (display_timezone : String) (entry : Json) : Except Raised Passage :=
  match entry with
  | .object ms => do
      let time ← timestamp py (value ms "time_utc") utcoffset display_timezone
      return [m "<li><strong>"] ++ time ++ [m "</strong>: ", esc (value ms "description"), m "</li>"]
  | entry => .ok [m "<li>", esc entry, m "</li>"]

/-- One entry of the query appendix. -/
def appendix_row (utcoffset : Time → Time) (display_timezone : String) (entry : Json) : Except Raised Passage := do
  let ms ← dictionary entry
  let text := fun key => do return esc (← item ms key)
  let query_id ← text "query_id"
  let spl ← text "spl"
  let purpose ← text "purpose"
  let indexes ← text "indexes"
  let earliest ← text "earliest_utc"
  let latest ← text "latest_utc"
  let executed ← timestamp py (← item ms "execution_timestamp_utc") utcoffset display_timezone
  let job ← text "splunk_job_id"
  let count ← text "result_count"
  let status ← text "status"
  let errors ← text "errors_or_truncation"
  return [m "<article class=\"query\"><h3>", query_id, m "</h3><pre>", spl, m "</pre><p><b>Purpose:</b> ", purpose,
      m "<br><b>Indexes:</b> ", indexes, m "<br><b>UTC bounds:</b> ", earliest, m " to ", latest,
      m "<br><b>Executed:</b> "] ++ executed ++
    [m "<br><b>Splunk job:</b> ", job, m "; <b>Result count:</b> ", count, m "; <b>Status:</b> ", status,
      m "<br><b>Errors/truncation:</b> ", errors, m "</p></article>"]

/-- The items of a list of the content. -/
def listOf (content : Members) (key : String) : Except Raised (List Json) := do elements (← item content key)

/-- The answers to the approved questions. -/
def answers_passage (content : Members) : Except Raised Passage :=
  match get content "question_answers" with
  | none => .ok []
  | some answers => do
      let texts ← (← elements answers).mapM (question_answer_text py)
      return [m "<h3>Approved question answers</h3>"] ++
        texts.flatMap fun lines => [m "<ul>"] ++ list_items (lines.map .string) ++ [m "</ul>"]

/-- `sections`, in the order of the markers. -/
def sections (content : Members) (utcoffset : Time → Time) (display_timezone : String) :
    Except Raised (List Passage) := do
  -- the renderer prefers these keys, which the validator does not look at
  let findings ← item content (if (get content "findings").isSome then "findings" else "finding_ids")
  let evidence_ids ← item content "evidence_ids"
  let evidence := (get content "selected_evidence").getD evidence_ids
  let entities ← item content "entities"
  let timeline ← (← listOf content "timeline").mapM (timeline_row py utcoffset display_timezone)
  let appendix ← (← listOf content "query_appendix").mapM (appendix_row py utcoffset display_timezone)
  let hypothesis ← item content "hypothesis"
  let objective ← item content "objective_and_scope"
  let sources ← listOf content "data_sources_used"
  let findings ← elements findings
  let answers ← answers_passage py content
  let evidence ← elements evidence
  let entities ← elements entities
  let coverage ← listOf content "coverage"
  let limitations ← listOf content "limitations"
  let conclusion ← item content "conclusion"
  let disposition ← item content "disposition"
  return [[m "<p>", esc hypothesis, m "</p>"], [m "<p>", esc objective, m "</p>"],
    [m "<ul>"] ++ list_items sources ++ [m "</ul>"], [m "<ul>"] ++ list_items findings ++ [m "</ul>"] ++ answers,
    [m "<ul>"] ++ list_items evidence ++ [m "</ul>"], [m "<ul>"] ++ list_items entities ++ [m "</ul>"],
    [m "<ul>"] ++ (if timeline.isEmpty then [m "<li>None recorded</li>"] else timeline.flatten) ++ [m "</ul>"],
    [m "<h3>Coverage</h3><ul>"] ++ list_items coverage ++ [m "</ul><h3>Limitations</h3><ul>"] ++
      list_items limitations ++ [m "</ul>"],
    [m "<p>", esc conclusion, m "</p><p><b>Disposition:</b> ", esc disposition, m "</p>"],
    if appendix.isEmpty then [m "<p>No queries were executed.</p>"] else appendix.flatten]

/-- `render_report_html`. -/
def render_report_html (content : Json) (display_timezone : String) : Except Raised String :=
  match py.zone display_timezone with
  | none => .error (.report_validation_error "display timezone is not a valid IANA timezone")
  | some utcoffset => do
      let content ← validate_report_content py content none none none
      let values := (← sections py content utcoffset display_timezone).map (Template.write html_escape)
      return String.ofList
        (Template.sequence (Template.replacementsOf (slots values)) (Template.source (slots values) report_ending))

/-! ### The holes -/

/-- The markers of the template. -/
def markers : List (List Char) :=
  ["HYPOTHESIS", "OBJECTIVE", "SOURCES", "FINDINGS", "EVIDENCE", "ENTITIES", "TIMELINE", "COVERAGE", "CONCLUSION",
    "APPENDIX"].map marker

theorem markers_of_holes : holes.map (·.2) = markers := rfl

/-- May a text begin or end with the character? -/
def outer (c : Char) : Bool := !(c.isUpper || c = '{' || c = '}')

/-- What the markers are made of, and that none of them is in another one. -/
theorem marker_facts :
    (∀ marker ∈ markers, marker ≠ [] ∧ ['{', '{'] <:+: marker ∧ ∀ c ∈ marker, outer c = false) ∧
      markers.Pairwise fun a b => ¬a <:+: b := by
  decide

theorem not_mem_marker {marker : List Char} (h : marker ∈ markers) {c : Char} (hc : outer c = true) : c ∉ marker := by
  intro hmem
  rw [(marker_facts.1 marker h).2.2 c hmem] at hc
  cases hc

/-- A text without two braces next to each other has no marker in it, since every marker begins with them. -/
theorem inert_of_braces {text : List Char} {c d : Char} (hc : text.head? = some c) (hd : text.getLast? = some d)
    (hcouter : outer c = true) (hdouter : outer d = true) (hbraces : ¬['{', '{'] <:+: text) :
    Template.Inert markers text :=
  ⟨⟨c, hc, fun _ hmarker => not_mem_marker hmarker hcouter⟩, ⟨d, hd, fun _ hmarker => not_mem_marker hmarker hdouter⟩,
    fun marker hmarker hoccurs => hbraces ((marker_facts.1 marker hmarker).2.1.trans hoccurs)⟩

theorem heading_facts :
    ("\n  <h2>".toList.head? = some '\n' ∧ '{' ∉ "\n  <h2>".toList) ∧
      ("</h2>\n  ".toList.getLast? = some ' ' ∧ '{' ∉ "</h2>\n  ".toList) ∧
      ∀ title ∈ ["Objective and scope", "Data sources used", "Findings", "Selected evidence excerpts and counts",
        "Entities", "Timeline", "Coverage and limitations", "Conclusion and disposition", "Query appendix"],
        '{' ∉ title.toList := by
  decide

theorem outer_append {a b : List Char} {c d : Char} (ha : a.head? = some c) (hb : b.getLast? = some d) (t : List Char) :
    (a ++ t ++ b).head? = some c ∧ (a ++ t ++ b).getLast? = some d := by
  constructor
  · rw [List.append_assoc, List.head?_append, ha, Option.some_or]
  · rw [List.getLast?_append, hb, Option.some_or]

theorem heading_outer (title : String) :
    (heading title).head? = some '\n' ∧ (heading title).getLast? = some ' ' :=
  outer_append heading_facts.1.1 heading_facts.2.1.1 _

theorem not_mem_between {a b t : List Char} {c : Char} (ha : c ∉ a) (hb : c ∉ b) (ht : c ∉ t) : c ∉ a ++ t ++ b := by
  simp [ha, hb, ht]

/-- A heading has no marker in it, if its title has no brace. -/
theorem inert_heading {title : String} (h : '{' ∉ title.toList) : Template.Inert markers (heading title) := by
  obtain ⟨hfirst, hlast⟩ := heading_outer title
  have hbrace : '{' ∉ heading title := not_mem_between heading_facts.1.2 heading_facts.2.1.2 h
  exact inert_of_braces hfirst hlast rfl rfl fun hoccurs => hbrace (hoccurs.subset List.mem_cons_self)

set_option maxRecDepth 8000 in
theorem inert_first : Template.Inert markers (report_head.toList ++ heading "Hunt hypothesis") := by
  have hhead : ∃ text, report_head.toList = text ∧ text.head? = some '<' ∧
      Template.occurs ['{', '{'] (text ++ heading "Hunt hypothesis") = false := by
    refine ⟨_, String.toList_ofList, ?_⟩
    decide
  obtain ⟨text, htext, hfirst, hbraces⟩ := hhead
  obtain ⟨-, hlast⟩ := heading_outer "Hunt hypothesis"
  rw [htext]
  refine inert_of_braces (c := '<') (d := ' ') ?_ ?_ rfl rfl ?_
  · rw [List.head?_append, hfirst, Option.some_or]
  · rw [List.getLast?_append, hlast, Option.some_or]
  · rw [← Template.occurs_iff, hbraces]
    exact Bool.false_ne_true

theorem inert_holes : ∀ hole ∈ holes, Template.Inert markers hole.1 := by
  have htitles := heading_facts.2.2
  simp only [List.forall_mem_cons, List.not_mem_nil, IsEmpty.forall_iff, implies_true, and_true] at htitles
  obtain ⟨h1, h2, h3, h4, h5, h6, h7, h8, h9⟩ := htitles
  simp only [holes, List.forall_mem_cons, List.not_mem_nil, IsEmpty.forall_iff, implies_true, and_true]
  exact ⟨inert_first, inert_heading h1, inert_heading h2, inert_heading h3, inert_heading h4, inert_heading h5,
    inert_heading h6, inert_heading h7, inert_heading h8, inert_heading h9⟩

variable {values : List (List Char)}

theorem markers_slots (h : values.length = holes.length) : (slots values).map (·.marker) = markers := by
  have hfst : (slots values).map (·.marker) = ((List.zip holes values).map (·.1)).map (·.2) := by
    simp [slots, List.zip, List.map_zipWith]
  rw [hfst, List.map_fst_zip (le_of_eq h.symm), markers_of_holes]

theorem mem_slots {slot : Template.Slot Char} (h : slot ∈ slots values) :
    ∃ hole ∈ holes, ∃ value ∈ values, slot = ⟨hole.1, hole.2, value⟩ := by
  rw [slots, ← List.map_uncurry_zip_eq_zipWith] at h
  obtain ⟨⟨hole, value⟩, hpair, rfl⟩ := List.mem_map.mp h
  exact ⟨hole, (List.of_mem_zip hpair).1, value, (List.of_mem_zip hpair).2, rfl⟩

/-- The template is well formed, whatever its holes are filled with. -/
theorem wellFormed (h : values.length = holes.length) : Template.WellFormed (slots values) report_ending where
  markers := by
    intro slot hslot
    obtain ⟨hole, hhole, value, -, rfl⟩ := mem_slots hslot
    exact (marker_facts.1 _ (markers_of_holes ▸ List.mem_map_of_mem hhole)).1
  alone := by
    have halone := marker_facts.2
    rw [← markers_slots h] at halone
    exact List.pairwise_map.mp halone
  before := by
    intro slot hslot
    obtain ⟨hole, hhole, value, -, rfl⟩ := mem_slots hslot
    rw [markers_slots h]
    exact inert_holes hole hhole
  ending := by
    rw [markers_slots h]
    decide

/-! ### The sections as passages -/

/-- The characters that are escaped. -/
def specials : List Char := ['&', '<', '>', '"', '\'']

theorem escape_facts :
    ∀ c ∈ specials, outer c = true ∧ html_escape c ≠ [] ∧
      ∀ d ∈ html_escape c, outer d = true ∧ d ∉ ['<', '>', '"', '\''] := by
  decide

theorem html_escape_of_not_mem {c : Char} (h : c ∉ specials) : html_escape c = [c] := by
  simp only [specials, List.mem_cons, List.not_mem_nil, or_false, not_or] at h
  rw [html_escape, if_neg h.1, if_neg h.2.1, if_neg h.2.2.1, if_neg h.2.2.2.1, if_neg h.2.2.2.2]

/-- Escaping keeps clear of what the markers are made of. -/
theorem escapes {marker : List Char} (h : marker ∈ markers) : Template.Escapes html_escape marker := by
  intro c
  by_cases hc : c ∈ specials
  · obtain ⟨houter, hsome, hescaped⟩ := escape_facts c hc
    exact .inr ⟨not_mem_marker h houter, hsome, fun d hd => not_mem_marker h (hescaped d hd).1⟩
  · exact .inl (html_escape_of_not_mem hc)

/-- Markup without braces that begins and ends with such characters. -/
def isMarkup (text : List Char) : Bool := text.head?.any outer && text.getLast?.any outer && text.all (· ≠ '{')

theorem inert_of_isMarkup {text : List Char} (h : isMarkup text = true) : Template.Inert markers text := by
  simp only [isMarkup, Bool.and_eq_true, List.all_eq_true, decide_eq_true_eq] at h
  obtain ⟨⟨hfirst, hlast⟩, hbrace⟩ := h
  obtain ⟨c, hc, hcouter⟩ := (Option.any_eq_true _ _).mp hfirst
  obtain ⟨d, hd, hdouter⟩ := (Option.any_eq_true _ _).mp hlast
  exact inert_of_braces hc hd hcouter hdouter fun hoccurs => hbrace '{' (hoccurs.subset List.mem_cons_self) rfl

/-- The markup that a section begins with. -/
def tags : List String :=
  ["<p>", "<ul>", "<h3>Coverage</h3><ul>", "<article class=\"query\"><h3>", "<p>No queries were executed.</p>"]

/-- The markup of the sections. -/
def pieces : List String := tags ++
  [" (", " (UTC); ", " to ", ")", "; <b>Result count:</b> ", "; <b>Status:</b> ",
    "</h3><pre>", "</li>", "</p>", "</p></article>", "</p><p><b>Disposition:</b> ", "</pre><p><b>Purpose:</b> ",
    "</strong>: ", "</ul>", "</ul><h3>Limitations</h3><ul>", "<br><b>Errors/truncation:</b> ",
    "<br><b>Executed:</b> ", "<br><b>Indexes:</b> ", "<br><b>Splunk job:</b> ", "<br><b>UTC bounds:</b> ",
    "<h3>Approved question answers</h3>", "<li>", "<li><strong>", "<li>None recorded</li>", "unknown"]

theorem isMarkup_of_mem : ∀ s ∈ pieces, isMarkup s.toList = true := by decide

theorem tag_of_mem : ∀ s ∈ tags, s.toList.head? = some '<' := by decide

theorem inert_m {s : String} (h : s ∈ pieces) : Template.Inert markers s.toList := inert_of_isMarkup (isMarkup_of_mem s h)

/-- A passage of a section, which begins with a tag. -/
structure Tagged (passage : Passage) : Prop where
  block : Template.Block markers passage
  tag : ∃ markup rest, passage = .markup markup :: rest ∧ markup.head? = some '<'

theorem Tagged.mem {passage : Passage} (h : Tagged passage) : '<' ∈ Template.write html_escape passage := by
  obtain ⟨markup, rest, rfl, hfirst⟩ := h.tag
  obtain ⟨tail, rfl⟩ := List.head?_eq_some_iff.mp hfirst
  simp [Template.write, Fragment.write]

theorem Tagged.append {a b : Passage} (ha : Tagged a) (hb : Template.Block markers b) : Tagged (a ++ b) where
  block := ha.block.append hb
  tag := by
    obtain ⟨markup, rest, rfl, hfirst⟩ := ha.tag
    exact ⟨markup, rest ++ b, rfl, hfirst⟩

theorem Tagged.of_block {s : String} {rest : Passage} (h : Template.Block markers (m s :: rest))
    (hs : s ∈ tags) : Tagged (m s :: rest) := ⟨h, _, rest, rfl, tag_of_mem s hs⟩

theorem block_m {s : String} (h : s ∈ pieces) : Template.Block markers [m s] := .markup (inert_m h)

theorem block_item {s s' : String} (hs : s ∈ pieces) (hs' : s' ∈ pieces) (value : Json) :
    Template.Block markers [m s, esc value, m s'] :=
  .cons_text (inert_m hs) _ (block_m hs')

theorem block_list_items (values : List Json) : Template.Block markers (list_items values) := by
  rw [list_items]
  split
  · exact block_m (by simp [pieces, tags])
  · exact .flatMap fun value _ => block_item (by simp [pieces, tags]) (by simp [pieces, tags]) value

/-- A list in its tags. -/
theorem tagged_list {passage : Passage} (h : Template.Block markers passage) : Tagged ([m "<ul>"] ++ passage ++ [m "</ul>"]) :=
  ((Tagged.of_block (block_m (by simp [pieces, tags])) (by simp [tags])).append h).append (block_m (by simp [pieces, tags]))

variable {py : Interpreter} {utcoffset : Time → Time} {display_timezone : String}

theorem interleaved_timestamp {j : Json} {passage : Passage} (h : timestamp py j utcoffset display_timezone = .ok passage) :
    Template.Interleaved markers passage := by
  unfold timestamp at h
  split at h
  · cases h
    exact (block_m (by simp [pieces, tags])).toInterleaved
  · split at h
    · cases h
      exact (block_m (by simp [pieces, tags])).toInterleaved
    · split at h
      · cases h
        exact .text _
      · obtain ⟨time, -, h⟩ := bind_eq_ok.mp h
        unfold both_times at h
        split at h
        · cases h
          exact (Template.Interleaved.text _).append <| .cons_text (inert_m (by simp [pieces, tags])) _ <|
            .cons_text (inert_m (by simp [pieces, tags])) _ (block_m (by simp [pieces, tags]))
        · cases h
  · cases h
    exact .text _

theorem block_timeline_row {entry : Json} {passage : Passage}
    (h : timeline_row py utcoffset display_timezone entry = .ok passage) : Template.Block markers passage := by
  unfold timeline_row at h
  split at h
  · obtain ⟨time, htime, h⟩ := bind_eq_ok.mp h
    cases h
    exact ((interleaved_timestamp htime).cons (inert_m (by simp [pieces, tags]))).append
      (block_item (by simp [pieces, tags]) (by simp [pieces, tags]) _)
  · cases h
    exact block_item (by simp [pieces, tags]) (by simp [pieces, tags]) _

/-- An entry of the appendix, but for the time of its execution. -/
theorem tagged_appendix_row {entry : Json} {passage : Passage}
    (h : appendix_row py utcoffset display_timezone entry = .ok passage) : Tagged passage := by
  simp only [appendix_row, bind_eq_ok, pure, Except.pure] at h
  obtain ⟨ms, -, _, ⟨query_id, -, hquery⟩, _, ⟨spl, -, hspl⟩, _, ⟨purpose, -, hpurpose⟩, _, ⟨indexes, -, hindexes⟩,
    _, ⟨earliest, -, hearliest⟩, _, ⟨latest, -, hlatest⟩, _, -, executed, hexecuted, _, ⟨job, -, hjob⟩, _,
    ⟨count, -, hcount⟩, _, ⟨status, -, hstatus⟩, _, ⟨errors, -, herrors⟩, h⟩ := h
  cases hquery; cases hspl; cases hpurpose; cases hindexes; cases hearliest; cases hlatest; cases hjob; cases hcount
  cases hstatus; cases herrors; cases h
  have hending : Template.Block markers [m "<br><b>Splunk job:</b> ", esc job,
      m "; <b>Result count:</b> ", esc count, m "; <b>Status:</b> ", esc status, m "<br><b>Errors/truncation:</b> ",
      esc errors, m "</p></article>"] := by
    repeat refine .cons_text (inert_m (by simp [pieces, tags])) _ ?_
    exact block_m (by simp [pieces, tags])
  refine .of_block ?_ (by simp [tags])
  repeat refine .cons_text (inert_m (by simp [pieces, tags])) _ ?_
  exact ((interleaved_timestamp hexecuted).append hending).cons (inert_m (by simp [pieces, tags]))

theorem tagged_flatten {passages : List Passage} (h : ∀ passage ∈ passages, Tagged passage) (hsome : passages ≠ []) :
    Tagged passages.flatten := by
  cases passages with
  | nil => exact absurd rfl hsome
  | cons passage passages =>
      obtain ⟨hfirst, hrest⟩ := List.forall_mem_cons.mp h
      refine hfirst.append ?_
      rw [← List.flatMap_id]
      exact .flatMap fun passage hpassage => (hrest passage hpassage).block

theorem block_flatten {passages : List Passage} (h : ∀ passage ∈ passages, Template.Block markers passage) :
    Template.Block markers passages.flatten := by
  rw [← List.flatMap_id]
  exact .flatMap h

theorem block_answers {content : Members} {passage : Passage} (h : answers_passage py content = .ok passage) :
    Template.Block markers passage := by
  unfold answers_passage at h
  split at h
  · cases h
    exact .nil
  · simp only [bind_eq_ok, pure, Except.pure] at h
    obtain ⟨_, -, texts, -, h⟩ := h
    cases h
    exact (block_m (by simp [pieces, tags])).append <| .flatMap fun lines _ => (tagged_list (block_list_items _)).block

/-- A paragraph of one text. -/
theorem tagged_paragraph (value : Json) : Tagged [m "<p>", esc value, m "</p>"] :=
  .of_block (block_item (by simp [pieces, tags]) (by simp [pieces, tags]) value) (by simp [tags])

theorem tagged_conclusion (conclusion disposition : Json) :
    Tagged [m "<p>", esc conclusion, m "</p><p><b>Disposition:</b> ", esc disposition, m "</p>"] :=
  .of_block (.cons_text (inert_m (by simp [pieces, tags])) _
    (block_item (by simp [pieces, tags]) (by simp [pieces, tags]) _)) (by simp [tags])

theorem tagged_coverage (coverage limitations : List Json) :
    Tagged ([m "<h3>Coverage</h3><ul>"] ++ list_items coverage ++ [m "</ul><h3>Limitations</h3><ul>"] ++
      list_items limitations ++ [m "</ul>"]) :=
  ((((Tagged.of_block (block_m (by simp [pieces, tags])) (by simp [tags])).append (block_list_items _)).append
    (block_m (by simp [pieces, tags]))).append (block_list_items _)).append (block_m (by simp [pieces, tags]))

/-- **Sections.** Every section keeps its texts apart, and begins with a tag. -/
theorem tagged_sections {content : Members} {passages : List Passage}
    (h : sections py content utcoffset display_timezone = .ok passages) :
    passages.length = 10 ∧ ∀ passage ∈ passages, Tagged passage := by
  simp only [sections, bind_eq_ok, pure, Except.pure] at h
  obtain ⟨_, -, _, -, _, -, _, -, timeline, htimeline, _, -, appendix, happendix, hypothesis, -, objective, -, sources, -,
    findings, -, answers, hanswers, evidence, -, entities, -, coverage, -, limitations, -, conclusion, -, disposition, -, h⟩ := h
  cases h
  refine ⟨rfl, ?_⟩
  simp only [List.forall_mem_cons, List.not_mem_nil, IsEmpty.forall_iff, implies_true, and_true]
  refine ⟨tagged_paragraph _, tagged_paragraph _, tagged_list (block_list_items _),
    (tagged_list (block_list_items _)).append (block_answers hanswers), tagged_list (block_list_items _),
    tagged_list (block_list_items _), tagged_list ?_, tagged_coverage _ _, tagged_conclusion _ _, ?_⟩
  · split
    · exact block_m (by simp [pieces, tags])
    · refine block_flatten fun passage hpassage => ?_
      obtain ⟨entry, -, hrow⟩ := (mem_of_mapM htimeline).1 passage hpassage
      exact block_timeline_row hrow
  · split
    · exact .of_block (block_m (by simp [pieces, tags])) (by simp [tags])
    · next hsome =>
        refine tagged_flatten (fun passage hpassage => ?_) (by simpa using hsome)
        obtain ⟨entry, -, hrow⟩ := (mem_of_mapM happendix).1 passage hpassage
        exact tagged_appendix_row hrow

/-! ### What the sections show of a content -/

section Shown

variable (py : Interpreter) (utcoffset : Time → Time) (display_timezone : String)

/-- The items of a list, as texts. -/
def listed (j : Json) : List String := ((elements j).toOption.getD []).map as_text

/-- The texts of a time. -/
def timed (j : Json) : List String :=
  match j with
  | .null => []
  | .string s =>
      if s = "unknown" then []
      else
        match (py.fromisoformat (replaceZ s)).map utc with
        | none => [s]
        | some (.ok time) => [isoformat time, local_text (time + utcoffset time) (utcoffset time), display_timezone]
        | some (.error _) => []
  | j => [as_text j]

/-- The texts of an entry of the timeline. -/
def entryTexts : Json → List String
  | .object ms => timed py utcoffset display_timezone (value ms "time_utc") ++ [as_text (value ms "description")]
  | j => [as_text j]

/-- The texts of an entry of the query appendix. -/
def queryTexts : Json → List String
  | .object ms =>
      ["query_id", "spl", "purpose", "indexes", "earliest_utc", "latest_utc"].map (fun key => as_text (value ms key)) ++
        (timed py utcoffset display_timezone (value ms "execution_timestamp_utc") ++
          ["splunk_job_id", "result_count", "status", "errors_or_truncation"].map fun key => as_text (value ms key))
  | _ => []

/-- The lines of the answers to the approved questions. -/
def answerTexts (content : Members) : List String :=
  ((elements (value content "question_answers")).toOption.getD []).flatMap fun answer =>
    (question_answer_text py answer).toOption.getD []

/-- The texts that each section shows. -/
def shown (content : Members) : List (List String) :=
  let one := fun key => as_text (value content key)
  let many := fun key => listed (value content key)
  [[one "hypothesis"], [one "objective_and_scope"], many "data_sources_used",
    many (if (get content "findings").isSome then "findings" else "finding_ids") ++ answerTexts py content,
    listed ((get content "selected_evidence").getD (value content "evidence_ids")), many "entities",
    ((elements (value content "timeline")).toOption.getD []).flatMap (entryTexts py utcoffset display_timezone),
    many "coverage" ++ many "limitations", [one "conclusion", one "disposition"],
    ((elements (value content "query_appendix")).toOption.getD []).flatMap (queryTexts py utcoffset display_timezone)]

variable {py utcoffset display_timezone}

/-- The texts of a passage. -/
def textsOf (passage : Passage) : List String := (Template.texts passage).map String.ofList

@[simp] theorem textsOf_nil : textsOf [] = [] := rfl

@[simp] theorem textsOf_m (markup : String) (passage : Passage) : textsOf (m markup :: passage) = textsOf passage := rfl

@[simp] theorem textsOf_t (text : String) (passage : Passage) : textsOf (t text :: passage) = text :: textsOf passage := by
  simp [textsOf, t]

@[simp] theorem textsOf_esc (j : Json) (passage : Passage) : textsOf (esc j :: passage) = as_text j :: textsOf passage :=
  textsOf_t _ _

@[simp] theorem textsOf_append (a b : Passage) : textsOf (a ++ b) = textsOf a ++ textsOf b := by
  simp [textsOf]

theorem textsOf_flatMap {β : Type} (f : β → Passage) (bs : List β) :
    textsOf (bs.flatMap f) = bs.flatMap fun b => textsOf (f b) := by
  rw [textsOf, Template.texts_flatMap, List.map_flatMap]
  rfl

@[simp] theorem textsOf_list_items (values : List Json) : textsOf (list_items values) = values.map as_text := by
  rw [list_items]
  split
  next hempty =>
    rw [List.isEmpty_iff.mp hempty]
    rfl
  next =>
    rw [textsOf_flatMap, List.map_eq_flatMap]
    simp

theorem textsOf_timestamp {j : Json} {passage : Passage} (h : timestamp py j utcoffset display_timezone = .ok passage) :
    textsOf passage = timed py utcoffset display_timezone j := by
  unfold timestamp at h
  unfold timed
  split at h
  · cases h
    rfl
  · split at h
    next hunknown =>
      cases h
      rw [if_pos hunknown]
      rfl
    next hunknown =>
      rw [if_neg hunknown]
      split at h
      next hnone =>
        cases h
        simp [hnone]
      next stamp hstamp =>
        obtain ⟨time, htime, h⟩ := bind_eq_ok.mp h
        unfold both_times at h
        split at h
        · cases h
          simp [hstamp, htime]
        · cases h
  next hnull hstring =>
    cases h
    cases j with
    | null => exact absurd rfl hnull
    | string s => exact absurd rfl (hstring s)
    | _ => simp

theorem value_of_item {ms : Members} {key : String} {j : Json} (h : item ms key = .ok j) : value ms key = j := by
  unfold item at h
  split at h
  next j' hget =>
    cases h
    simp [value, hget]
  next => cases h

theorem textsOf_timeline_row {entry : Json} {passage : Passage}
    (h : timeline_row py utcoffset display_timezone entry = .ok passage) :
    textsOf passage = entryTexts py utcoffset display_timezone entry := by
  cases entry with
  | object ms =>
      obtain ⟨time, htime, h⟩ := bind_eq_ok.mp h
      cases h
      simp [textsOf_timestamp htime, entryTexts]
  | _ =>
      cases h
      simp [entryTexts]

theorem textsOf_appendix_row {entry : Json} {passage : Passage}
    (h : appendix_row py utcoffset display_timezone entry = .ok passage) :
    textsOf passage = queryTexts py utcoffset display_timezone entry := by
  simp only [appendix_row, bind_eq_ok, pure, Except.pure, Except.ok.injEq] at h
  obtain ⟨ms, hms, _, ⟨_, hquery, rfl⟩, _, ⟨_, hspl, rfl⟩, _, ⟨_, hpurpose, rfl⟩, _, ⟨_, hindexes, rfl⟩,
    _, ⟨_, hearliest, rfl⟩, _, ⟨_, hlatest, rfl⟩, _, htime, executed, hexecuted, _, ⟨_, hjob, rfl⟩, _,
    ⟨_, hcount, rfl⟩, _, ⟨_, hstatus, rfl⟩, _, ⟨_, herrors, rfl⟩, rfl⟩ := h
  cases entry with
  | object ms =>
      cases hms
      simp [textsOf_timestamp hexecuted, queryTexts, value_of_item hquery, value_of_item hspl, value_of_item hpurpose,
        value_of_item hindexes, value_of_item hearliest, value_of_item hlatest, value_of_item htime, value_of_item hjob,
        value_of_item hcount, value_of_item hstatus, value_of_item herrors]
  | _ => cases hms

/-- The texts of rows, entry by entry. -/
theorem textsOf_flatten {entries : List Json} {row : Json → Except Raised Passage} {passages : List Passage}
    {texts : Json → List String} (h : entries.mapM row = .ok passages)
    (hrow : ∀ entry passage, row entry = .ok passage → textsOf passage = texts entry) :
    textsOf passages.flatten = entries.flatMap texts := by
  have hall := forall₂_of_mapM h
  clear h
  induction hall with
  | nil => rfl
  | cons hfirst _ ih => rw [List.flatten_cons, textsOf_append, hrow _ _ hfirst, ih, List.flatMap_cons]

theorem textsOf_answers {content : Members} {passage : Passage} (h : answers_passage py content = .ok passage) :
    textsOf passage = answerTexts py content := by
  unfold answers_passage at h
  split at h
  next hnone =>
    cases h
    simp [answerTexts, value, hnone, elements, Except.toOption]
  next answers hsome =>
    simp only [bind_eq_ok, pure, Except.pure] at h
    obtain ⟨items, hitems, texts, htexts, h⟩ := h
    cases h
    have hlines : textsOf (texts.flatMap fun lines => [m "<ul>"] ++ list_items (lines.map .string) ++ [m "</ul>"]) =
        texts.flatten := by
      rw [textsOf_flatMap, ← List.flatMap_id]
      refine List.flatMap_congr fun lines _ => ?_
      simp [Function.comp_def, as_text]
    have hall := forall₂_of_mapM htexts
    rw [List.cons_append, List.nil_append, textsOf_m, hlines, answerTexts, value, hsome, Option.getD_some, hitems]
    clear htexts hlines hitems
    show texts.flatten = items.flatMap _
    induction hall with
    | nil => rfl
    | cons hfirst _ ih =>
        rw [List.flatten_cons, List.flatMap_cons, hfirst, ih]
        rfl

/-- **Shown.** The texts of the sections are those that the content has for them. -/
theorem textsOf_sections {content : Members} {passages : List Passage}
    (h : sections py content utcoffset display_timezone = .ok passages) :
    passages.map textsOf = shown py utcoffset display_timezone content := by
  simp only [sections, listOf, bind_eq_ok, pure, Except.pure] at h
  obtain ⟨_, hfindingsKey, _, hevidenceKey, _, hentitiesKey, _, ⟨_, htimelineKey, htimelineItems⟩, timeline, htimeline,
    _, ⟨_, happendixKey, happendixItems⟩, appendix, happendix, hypothesis, hhypothesis, objective, hobjective,
    sources, ⟨_, hsourcesKey, hsources⟩, findings, hfindings, answers, hanswers, evidence, hevidence, entities, hentities,
    coverage, ⟨_, hcoverageKey, hcoverage⟩, limitations, ⟨_, hlimitationsKey, hlimitations⟩, conclusion, hconclusion,
    disposition, hdisposition, h⟩ := h
  cases h
  have htimes : textsOf (if timeline.isEmpty then [m "<li>None recorded</li>"] else timeline.flatten) =
      textsOf timeline.flatten := by
    split
    next hempty => simp [List.isEmpty_iff.mp hempty]
    next => rfl
  have hqueries : textsOf (if appendix.isEmpty then [m "<p>No queries were executed.</p>"] else appendix.flatten) =
      textsOf appendix.flatten := by
    split
    next hempty => simp [List.isEmpty_iff.mp hempty]
    next => rfl
  have hrows := textsOf_flatten htimeline fun entry passage => textsOf_timeline_row
  have hentries := textsOf_flatten happendix fun entry passage => textsOf_appendix_row
  simp only [List.map_cons, List.map_nil, textsOf_append, textsOf_m, textsOf_esc, textsOf_nil, textsOf_list_items,
    List.append_nil, List.nil_append, htimes, hqueries, hrows, hentries, textsOf_answers hanswers, shown, listed,
    value_of_item hfindingsKey, value_of_item hevidenceKey, value_of_item hentitiesKey, value_of_item htimelineKey,
    value_of_item happendixKey, value_of_item hhypothesis, value_of_item hobjective, value_of_item hsourcesKey,
    value_of_item hcoverageKey, value_of_item hlimitationsKey, value_of_item hconclusion, value_of_item hdisposition,
    htimelineItems, happendixItems, hsources, hfindings, hevidence, hentities, hcoverage, hlimitations, Except.toOption,
    Option.getD_some]

end Shown

/-! ### Injection -/

section Injection

variable {py : Interpreter} {utcoffset : Time → Time} {display_timezone document : String} {content : Json}

/-- No text of a section has the marker of a section further down in it. -/
def Unmarked (texts : List (List String)) : Prop :=
  (texts.zip markers).Pairwise fun earlier later => ∀ text ∈ earlier.1, ¬later.2 <:+: text.toList

/-- The template with all of its markers replaced at once. -/
def simultaneous (passages : List Passage) : String :=
  String.ofList (Template.filled (slots (passages.map (Template.write html_escape))) report_ending)

/-- The document is the template with the sections in its holes, and no text of them is read as markup. -/
def InjectionFree (document : String) (passages : List Passage) : Prop :=
  document = simultaneous passages ∧
    ∀ passage ∈ passages, ∀ text ∈ Template.texts passage, ∀ c ∈ text.flatMap html_escape, c ∉ ['<', '>', '"', '\'']

/-- Escaping leaves nothing of markup. -/
theorem escaped_plain (text : List Char) : ∀ c ∈ text.flatMap html_escape, c ∉ ['<', '>', '"', '\''] := by
  intro d hd
  obtain ⟨c, -, hd⟩ := List.mem_flatMap.mp hd
  by_cases hc : c ∈ specials
  · exact ((escape_facts c hc).2.2 d hd).2
  · rw [html_escape_of_not_mem hc, List.mem_singleton] at hd
    subst hd
    exact fun hmem => hc (List.mem_cons_of_mem _ hmem)

/-- A marker occurs in a section exactly if it occurs in one of its texts. -/
theorem marker_occurs_iff {passage : Passage} (h : Tagged passage) {marker : List Char} (hmarker : marker ∈ markers) :
    marker <:+: Template.write html_escape passage ↔ ∃ text ∈ textsOf passage, marker <:+: text.toList := by
  have hinert : ∀ s, .markup s ∈ passage → Template.Inert [marker] s := fun s hs =>
    (h.block.inert s hs).mono (by simpa using hmarker)
  rw [Template.infix_write_iff (escapes hmarker) (marker_facts.1 marker hmarker).1 h.block.chain hinert]
  simp [textsOf]

theorem separate_iff {passages : List Passage} (h : ∀ passage ∈ passages, Tagged passage) :
    Template.Separate (slots (passages.map (Template.write html_escape))) ↔ Unmarked (passages.map textsOf) := by
  have hslots : slots (passages.map (Template.write html_escape)) =
      (List.zip holes passages).map fun p => ⟨p.1.1, p.1.2, Template.write html_escape p.2⟩ := by
    rw [slots, List.zipWith_map_right, List.zip, List.map_zipWith]
  have htexts : (passages.map textsOf).zip markers = (List.zip holes passages).map fun p => (textsOf p.2, p.1.2) := by
    rw [← markers_of_holes, List.zip_map, ← List.zip_swap, List.map_map]
    rfl
  rw [Template.Separate, Unmarked, hslots, htexts, List.pairwise_map, List.pairwise_map]
  refine List.Pairwise.iff_of_mem fun {a b} ha hb => ?_
  have hpassage := h a.2 (List.of_mem_zip ha).2
  have hmarker : b.1.2 ∈ markers := markers_of_holes ▸ List.mem_map_of_mem (List.of_mem_zip hb).1
  rw [marker_occurs_iff hpassage hmarker]
  simp

/-- What is returned for a content. -/
theorem render_eq_ok (h : render_report_html py content display_timezone = .ok document) :
    ∃ ms utcoffset passages, content = .object ms ∧ py.zone display_timezone = some utcoffset ∧
      sections py ms utcoffset display_timezone = .ok passages ∧
      document = String.ofList
        (Template.sequence (Template.replacementsOf (slots (passages.map (Template.write html_escape))))
          (Template.source (slots (passages.map (Template.write html_escape))) report_ending)) := by
  unfold render_report_html at h
  split at h
  · cases h
  next utcoffset hzone =>
    simp only [bind_eq_ok, pure, Except.pure, Except.ok.injEq] at h
    obtain ⟨ms, hvalid, passages, hsections, hdocument⟩ := h
    exact ⟨ms, utcoffset, passages, (accepted hvalid).1, hzone, hsections, hdocument.symm⟩

/-- The document of some sections is as it should be exactly if no text in them has a later marker. -/
theorem injectionFree_iff {ms : Members} {passages : List Passage}
    (hsections : sections py ms utcoffset display_timezone = .ok passages)
    (hdocument : document = String.ofList
      (Template.sequence (Template.replacementsOf (slots (passages.map (Template.write html_escape))))
        (Template.source (slots (passages.map (Template.write html_escape))) report_ending))) :
    InjectionFree document passages ↔ Unmarked (shown py utcoffset display_timezone ms) := by
  obtain ⟨hlength, htagged⟩ := tagged_sections hsections
  have hmarkers : ∀ slot ∈ slots (passages.map (Template.write html_escape)), '<' ∉ slot.marker := by
    intro slot hslot
    obtain ⟨hole, hhole, value, -, rfl⟩ := mem_slots hslot
    exact not_mem_marker (markers_of_holes ▸ List.mem_map_of_mem hhole) rfl
  have hvalues : ∀ slot ∈ slots (passages.map (Template.write html_escape)), '<' ∈ slot.value := by
    intro slot hslot
    obtain ⟨hole, -, value, hvalue, rfl⟩ := mem_slots hslot
    obtain ⟨passage, hpassage, rfl⟩ := List.mem_map.mp hvalue
    exact (htagged passage hpassage).mem
  have hholes : (passages.map (Template.write html_escape)).length = holes.length := by
    rw [List.length_map, hlength]
    rfl
  rw [InjectionFree, and_iff_left fun passage _ text _ => escaped_plain text, hdocument, simultaneous, String.ofList_inj,
    Template.sequence_eq_filled_iff (wellFormed hholes) hmarkers hvalues, separate_iff htagged, textsOf_sections hsections]

/-- **Injection.** A document is the template with the sections in its holes exactly if no text that a section shows
has the marker of a section further down in it. -/
theorem injection_free_iff (h : render_report_html py content display_timezone = .ok document) :
    (∃ ms utcoffset passages, content = .object ms ∧ py.zone display_timezone = some utcoffset ∧
        sections py ms utcoffset display_timezone = .ok passages ∧ InjectionFree document passages) ↔
      ∀ ms utcoffset, content = .object ms → py.zone display_timezone = some utcoffset →
        Unmarked (shown py utcoffset display_timezone ms) := by
  obtain ⟨ms, utcoffset, passages, hcontent, hzone, hsections, hdocument⟩ := render_eq_ok h
  have hfree := injectionFree_iff hsections hdocument
  constructor
  · rintro ⟨ms', utcoffset', passages', hcontent', hzone', hsections', hinjection⟩
    cases hcontent.symm.trans hcontent'
    cases hzone.symm.trans hzone'
    cases hsections.symm.trans hsections'
    intro ms'' utcoffset'' hcontent'' hzone''
    cases hcontent.symm.trans hcontent''
    cases hzone.symm.trans hzone''
    exact hfree.mp hinjection
  · intro hunmarked
    exact ⟨ms, utcoffset, passages, hcontent, hzone, hsections, hfree.mpr (hunmarked ms utcoffset hcontent hzone)⟩

/-- An interpreter with a single time zone. -/
def samplePy : Interpreter where
  str _ := ""
  repr _ := ""
  fromisoformat _ := none
  zone key := if key = "UTC" then some fun _ => 0 else none
  utc_datetime _ := none

/-- A short content with this hypothesis. -/
def sampleMembers (hypothesis : String) : Members :=
  [("hypothesis", .string hypothesis), ("objective_and_scope", .string "o"), ("conclusion", .string "c"),
    ("disposition", .string "d")] ++
    ["data_sources_used", "finding_ids", "evidence_ids", "query_ids", "entities", "timeline", "coverage", "limitations",
      "query_appendix"].map fun key => (key, .array [])

/-- The content is accepted, and shown. -/
theorem render_sample {hypothesis : String}
    (hvalid : (validate_report_content samplePy (.object (sampleMembers hypothesis)) none none none).toBool = true)
    (hshown : (sections samplePy (sampleMembers hypothesis) (fun _ => 0) "UTC").toBool = true) :
    ∃ passages document, sections samplePy (sampleMembers hypothesis) (fun _ => 0) "UTC" = .ok passages ∧
      render_report_html samplePy (.object (sampleMembers hypothesis)) "UTC" = .ok document := by
  obtain ⟨ms, hms⟩ := exists_of_toBool hvalid
  obtain ⟨passages, hpassages⟩ := exists_of_toBool hshown
  cases (accepted hms).1
  have hrender : render_report_html samplePy (.object (sampleMembers hypothesis)) "UTC" =
      (do
        let content ← validate_report_content samplePy (.object (sampleMembers hypothesis)) none none none
        let values := (← sections samplePy content (fun _ => 0) "UTC").map (Template.write html_escape)
        return String.ofList
          (Template.sequence (Template.replacementsOf (slots values)) (Template.source (slots values) report_ending))) := rfl
  rw [hms, ok_bind, hpassages, ok_bind] at hrender
  exact ⟨passages, _, hpassages, hrender⟩

theorem injection_free_iff_plain :
    ∃ document, render_report_html samplePy (.object (sampleMembers "h")) "UTC" = .ok document ∧
      ((∃ ms utcoffset passages, Json.object (sampleMembers "h") = .object ms ∧ samplePy.zone "UTC" = some utcoffset ∧
          sections samplePy ms utcoffset "UTC" = .ok passages ∧ InjectionFree document passages) ↔
        ∀ ms utcoffset, Json.object (sampleMembers "h") = .object ms → samplePy.zone "UTC" = some utcoffset →
          Unmarked (shown samplePy utcoffset "UTC" ms)) := by
  obtain ⟨passages, document, -, hdocument⟩ := @render_sample "h" (by decide +kernel) (by decide +kernel)
  exact ⟨document, hdocument, injection_free_iff hdocument⟩

instance (texts : List (List String)) : Decidable (Unmarked texts) :=
  inferInstanceAs (Decidable (List.Pairwise _ _))

/-- A hypothesis that is the marker of the next section. -/
theorem marker_injected :
    ∃ passages document, render_report_html samplePy (.object (sampleMembers "\x7b\x7bOBJECTIVE\x7d\x7d")) "UTC" = .ok document ∧
      sections samplePy (sampleMembers "\x7b\x7bOBJECTIVE\x7d\x7d") (fun _ => 0) "UTC" = .ok passages ∧
      ¬InjectionFree document passages := by
  obtain ⟨passages, document, hpassages, hrender⟩ :=
    @render_sample "\x7b\x7bOBJECTIVE\x7d\x7d" (by decide +kernel) (by decide +kernel)
  obtain ⟨ms, utcoffset, passages', hcontent, hzone, hsections, hdocument⟩ := render_eq_ok hrender
  cases hcontent
  cases hzone
  cases hpassages.symm.trans hsections
  refine ⟨passages, document, hrender, hpassages, ?_⟩
  rw [injectionFree_iff hsections hdocument]
  decide

end Injection

end HtmlReport

end ThreatHunting
