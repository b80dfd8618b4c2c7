import ThreatHunting.Services.HtmlReport

/-!
# ThreatHunting.Services.HtmlRendering

Which of the contents that `validate_report_content` accepts `render_report_html` renders. The
renderer reads keys that the validator does not look at, converts times that it has not read, and
indexes what the validator takes the defaults of.
-/

namespace ThreatHunting

namespace HtmlReport

open Fallible
open ModelOutput (Members get truthy)
open EvidenceLookup (value)
open ReportContent
open Spl (Time)

variable {py : Interpreter} {utcoffset : Time → Time} {display_timezone : String} {af ae aq : Option (List String)}
  {ms : Members} {key : String}

/-! ### Reading what is there -/

theorem item_of_isSome (h : (get ms key).isSome = true) : item ms key = .ok (value ms key) := by
  obtain ⟨j, hj⟩ := Option.isSome_iff_exists.mp h
  simp [item, value, hj]

theorem succeeds_item : Succeeds (item ms key) ↔ (get ms key).isSome = true := by
  unfold item
  split
  next j hj => simp [hj]
  next hj => simp [hj]

theorem isSome_of_value_ne (h : value ms key ≠ .null) : (get ms key).isSome = true := by
  cases hget : get ms key with
  | none => exact absurd (by simp [value, hget]) h
  | some j => rfl

theorem item_of_isText (h : isText (value ms key) = true) : item ms key = .ok (value ms key) :=
  item_of_isSome (isSome_of_value_ne fun hnull => by simp [hnull, isText] at h)

theorem isArray_iff {j : Json} : isArray j = true ↔ j = .array (items j) := by
  cases j <;> simp [isArray, items]

theorem item_of_isArray (h : isArray (value ms key) = true) : item ms key = .ok (.array (items (value ms key))) := by
  rw [item_of_isSome (isSome_of_value_ne fun hnull => by simp [hnull, isArray] at h), ← isArray_iff.mp h]

theorem isArray_of_isTexts {j : Json} (h : isTexts j = true) : isArray j = true := by
  cases j <;> simp_all [isTexts, isArray]

theorem elements_array (js : List Json) : elements (.array js) = .ok js := rfl

theorem elements_of_isArray {j : Json} (h : isArray j = true) : elements j = .ok (items j) := by
  rw [isArray_iff.mp h]
  rfl

/-- A value that can be gone through. -/
def Iterable : Json → Prop
  | .array _ | .object _ | .string _ => True
  | _ => False

theorem succeeds_elements {j : Json} : Succeeds (elements j) ↔ Iterable j := by
  cases j <;> simp [elements, Iterable]

/-! ### Times -/

/-- A time can be shown: it says how far it is from UTC, and is a time there and in the display zone. -/
structure Displayable (utcoffset : Time → Time) (stamp : Stamp) : Prop where
  utc : ∃ time, ReportContent.utc stamp = .ok time ∧ inRange (time + utcoffset time) = true

/-- What is shown as a time is `unknown`, or no time at all, or can be shown. -/
def TimeShown (py : Interpreter) (utcoffset : Time → Time) (j : Json) : Prop :=
  ∀ s, j = .string s → s ≠ "unknown" → ∀ stamp, py.fromisoformat (replaceZ s) = some stamp → Displayable utcoffset stamp

theorem succeeds_timestamp {j : Json} :
    Succeeds (timestamp py j utcoffset display_timezone) ↔ TimeShown py utcoffset j := by
  unfold timestamp TimeShown
  split
  · simp
  next s =>
    split
    next hunknown => simp [hunknown]
    next hunknown =>
      split
      next hnone => simp [hnone]
      next stamp hstamp =>
        constructor
        · rintro ⟨passage, hok⟩ s' hs' - stamp' hstamp'
          cases hs'
          cases hstamp.symm.trans hstamp'
          obtain ⟨time, htime, hshown⟩ := bind_eq_ok.mp hok
          unfold both_times at hshown
          split at hshown
          next hrange => exact ⟨time, htime, hrange⟩
          next => cases hshown
        · intro h
          obtain ⟨time, htime, hrange⟩ := (h s rfl hunknown stamp hstamp).utc
          rw [htime, ok_bind, both_times, if_pos hrange]
          exact succeeds_ok _
  next hnull hstring => simpa using fun s hs => absurd hs (hstring s)

/-! ### Answers -/

/-- The inventories of an answer. -/
def inventoriesOf (answer : Members) : List Json := items ((get answer "inventories").getD (.array []))

/-- The lead coverage of an answer. -/
def coverageOf (answer : Members) : List Json := items ((get answer "lead_coverage").getD (.array []))

/-- What the validator checks of an answer. -/
structure AnswerAccepted (py : Interpreter) (answer : Members) : Prop where
  texts : ∀ key ∈ ["question_id", "question", "summary"], isText (value answer key) = true
  lists : ∀ key ∈ ["finding_ids", "limitations"], isTexts (value answer key) = true
  coverage : isArray ((get answer "lead_coverage").getD (.array [])) = true
  leads : ∀ lead ∈ coverageOf answer, leadAccepted (items (value answer "finding_ids")) lead = true
  inventories : isArray ((get answer "inventories").getD (.array [])) = true
  measured : ∀ inventory ∈ inventoriesOf answer, inventoryAccepted py inventory = true

theorem answer_accepted {answer : Json} (h : check_answer py af aq answer = .ok ()) :
    ∃ ms, answer = .object ms ∧ AnswerAccepted py ms := by
  cases answer with
  | object ms =>
      simp only [check_answer, bind_eq_ok, require_eq_ok, Bool.and_eq_true, List.all_eq_true] at h
      obtain ⟨_, ⟨⟨htexts, hlists⟩, -⟩, _, ⟨hcoverage, hleads⟩, _, -, _, ⟨hinventories, -⟩, hall⟩ := h
      refine ⟨ms, rfl, htexts, hlists, hcoverage, hleads, hinventories, fun inventory hmem => ?_⟩
      obtain ⟨_, hmeasured, -⟩ := bind_eq_ok.mp (forM_eq_ok.mp hall inventory hmem)
      exact require_eq_ok.mp hmeasured
  | _ => cases h

theorem hasKeys_isSome {required optional : List String} (h : hasKeys ms required optional = true) (hkey : key ∈ required) :
    (get ms key).isSome = true := by
  simp only [hasKeys, Bool.and_eq_true, List.all_eq_true] at h
  exact h.1 key hkey

theorem succeeds_filter_text {filter : Json} (h : filterAccepted filter = true) : Succeeds (filter_text py filter) := by
  cases filter with
  | object ms =>
      simp only [filterAccepted, Bool.and_eq_true] at h
      have hkeys := h.1.1.1
      have hfield := item_of_isSome (hasKeys_isSome hkeys (by simp : "field" ∈ _))
      have hvalue := item_of_isSome (hasKeys_isSome hkeys (by simp : "value" ∈ _))
      exact ⟨_, by simp only [filter_text, dictionary, ok_bind, hfield, hvalue]; rfl⟩
  | _ => simp [filterAccepted] at h

theorem succeeds_field_text {field : Json} (h : fieldCountAccepted field = true) : Succeeds (field_text py field) := by
  cases field with
  | object ms =>
      simp only [fieldCountAccepted, Bool.and_eq_true] at h
      obtain ⟨⟨hkeys, hname⟩, -⟩ := h
      obtain ⟨name, hname⟩ : ∃ name, value ms "field" = .string name := by
        cases hvalue : value ms "field" <;> simp_all [isIdentifier]
      have hitem := fun key (hkey : key ∈ _) => item_of_isSome (hasKeys_isSome hkeys hkey)
      have hfield := hitem "field" (by simp)
      rw [hname] at hfield
      exact ⟨_, by
        simp only [field_text, dictionary, ok_bind, hfield, spaced, hitem "distinct_literal_value_count" (by simp),
          hitem "distinct_unambiguous_value_count" (by simp), hitem "rows_with_missing_or_nonscalar_value" (by simp),
          hitem "rows_with_multiple_distinct_values" (by simp)]
        rfl⟩
  | _ => simp [fieldCountAccepted] at h

theorem succeeds_joined {separator : String} {values : List Json} (h : ∀ j ∈ values, isIdentifier j = true) :
    Succeeds (joined separator values) := by
  rw [joined, succeeds_bind fun _ _ => @iff_of_true _ True (succeeds_pure _) trivial, and_true, succeeds_mapM]
  intro j hj
  cases j with
  | string s => exact succeeds_ok _
  | _ => simp [isIdentifier] at h; exact absurd (h _ hj) (by simp)

/-- The keys of an inventory's scope that a scope need not have, but its text does. -/
def scopeKeys : List String := ["filters", "earliest_utc", "latest_utc"]

/-- The scope of an inventory has all of its keys. -/
def ScopeComplete (inventory : Json) : Prop :=
  ∀ ms scope, inventory = .object ms → value ms "scope" = .object scope → ∀ key ∈ scopeKeys, (get scope key).isSome = true

theorem succeeds_inventory_text {inventory : Json} (h : inventoryAccepted py inventory = true) :
    Succeeds (inventory_text py inventory) ↔ ScopeComplete inventory := by
  cases inventory with
  | object ms =>
      simp only [inventoryAccepted, Bool.and_eq_true, List.all_eq_true] at h
      obtain ⟨⟨⟨⟨⟨⟨⟨hkeys, hscope⟩, -⟩, hfieldsArray⟩, hfields⟩, -⟩, hlimitsArray⟩, -⟩ := h
      have hitem := fun key (hkey : key ∈ _) => item_of_isSome (hasKeys_isSome hkeys hkey)
      have hscopeItem := hitem "scope" (by simp)
      have hfieldsItem := item_of_isArray hfieldsArray
      have hlimitsItem := item_of_isArray hlimitsArray
      cases hvalue : value ms "scope" with
      | object scope =>
          rw [hvalue] at hscope hscopeItem
          simp only [scopeAccepted, Bool.and_eq_true, List.all_eq_true] at hscope
          obtain ⟨⟨⟨⟨⟨⟨⟨⟨⟨⟨⟨-, hqueriesArray⟩, hqueries⟩, -⟩, -⟩, hfiltersArray⟩, hfilters⟩, -⟩, -⟩, -⟩, -⟩, -⟩ := hscope
          have hqueriesItem := item_of_isArray hqueriesArray
          have hcomplete : ScopeComplete (.object ms) ↔ ∀ key ∈ scopeKeys, (get scope key).isSome = true := by
            constructor
            · exact fun h => h ms scope rfl hvalue
            · intro h ms' scope' hms hscope'
              cases hms
              cases hvalue.symm.trans hscope'
              exact h
          rw [hcomplete]
          constructor
          · rintro ⟨lines, hok⟩
            simp only [inventory_text, dictionary, ok_bind, hscopeItem, bind_eq_ok] at hok
            obtain ⟨_, hfiltersItem, _, -, _, -, _, -, _, -, _, -, _, -, _, hearliest, _, hlatest, -⟩ := hok
            simp only [scopeKeys, List.forall_mem_cons, List.not_mem_nil, IsEmpty.forall_iff, implies_true, and_true]
            exact ⟨succeeds_item.mp ⟨_, hfiltersItem⟩, succeeds_item.mp ⟨_, hearliest⟩, succeeds_item.mp ⟨_, hlatest⟩⟩
          · intro hall
            simp only [scopeKeys, List.forall_mem_cons, List.not_mem_nil, IsEmpty.forall_iff, implies_true, and_true] at hall
            obtain ⟨hfiltersSome, hearliest, hlatest⟩ := hall
            have hfiltersItem : item scope "filters" = .ok (.array (items (value scope "filters"))) := by
              obtain ⟨j, hj⟩ := Option.isSome_iff_exists.mp hfiltersSome
              refine item_of_isArray ?_
              simpa [value, hj] using hfiltersArray
            obtain ⟨filters, hfilterTexts⟩ := succeeds_mapM.mpr fun f hf => @succeeds_filter_text py f (hfilters f hf)
            obtain ⟨queries, hjoined⟩ := @succeeds_joined ", " _ hqueries
            obtain ⟨fields, hfieldTexts⟩ := succeeds_mapM.mpr fun f hf => @succeeds_field_text py f (hfields f hf)
            exact ⟨_, by
              simp only [inventory_text, dictionary, ok_bind, hscopeItem, hfiltersItem, elements, hfilterTexts,
                hitem "raw_record_count" (by simp), hqueriesItem, hjoined, item_of_isSome hearliest, item_of_isSome hlatest,
                hfieldsItem, hfieldTexts, hlimitsItem]
              rfl⟩
      | _ => simp [hvalue, scopeAccepted] at hscope
  | _ => simp [inventoryAccepted] at h

theorem succeeds_lead_text {lead : Json} {finding_ids : List Json} (h : leadAccepted finding_ids lead = true) :
    Succeeds (lead_text py lead) := by
  cases lead with
  | object ms =>
      simp only [leadAccepted, Bool.and_eq_true, List.all_eq_true] at h
      obtain ⟨⟨⟨⟨⟨⟨⟨⟨hkeys, -⟩, -⟩, -⟩, hidentity⟩, hfindings⟩, -⟩, -⟩, -⟩ := h
      have hlimitation := item_of_isSome (hkeys "limitation" (by simp [leadKeys]))
      have hfindingsItem := item_of_isArray hfindings
      have hidentityItem := item_of_isSome (hkeys "identity_fields" (by simp [leadKeys]))
      cases hvalue : value ms "identity_fields" with
      | object fields =>
          rw [hvalue] at hidentityItem
          have hnames : Succeeds (fields.mapM fun field => do
              return (← spaced (.string field.1)) ++ ": " ++ py.text field.2) :=
            succeeds_mapM.mpr fun field _ => succeeds_pure _
          obtain ⟨names, hnames⟩ := hnames
          exact ⟨_, by
            simp only [lead_text, dictionary, ok_bind, hidentityItem, hnames, hfindingsItem, length, elements, Except.map,
              hlimitation]
            rfl⟩
      | _ => simp [hvalue] at hidentity
  | _ => simp [leadAccepted] at h

theorem succeeds_answer_text {answer : Members} (h : AnswerAccepted py answer) :
    Succeeds (question_answer_text py (.object answer)) ↔ ∀ inventory ∈ inventoriesOf answer, ScopeComplete inventory := by
  have htext := fun key hkey => item_of_isText (h.texts key hkey)
  have hlist := fun key hkey => item_of_isArray (isArray_of_isTexts (h.lists key hkey))
  have hlead : ∀ lead ∈ coverageOf answer, Succeeds (lead_text py lead) := fun lead hlead =>
    succeeds_lead_text (h.leads lead hlead)
  simp only [question_answer_text, dictionary, ok_bind, htext "question_id" (by simp), htext "question" (by simp),
    htext "summary" (by simp), hlist "finding_ids" (by simp), hlist "limitations" (by simp), length, elements_array, Except.map,
    elements_of_isArray h.inventories, elements_of_isArray h.coverage]
  rw [succeeds_bind fun _ _ => succeeds_bind fun _ _ => iff_of_true (succeeds_pure _) trivial, succeeds_mapM, succeeds_mapM,
    and_true]
  refine (and_iff_left hlead).trans ?_
  exact forall₂_congr fun inventory hinventory => succeeds_inventory_text (h.measured inventory hinventory)

/-! ### Rows -/

theorem succeeds_timeline_row {entry : Json} :
    Succeeds (timeline_row py utcoffset display_timezone entry) ↔
      ∀ ms, entry = .object ms → TimeShown py utcoffset (value ms "time_utc") := by
  cases entry with
  | object ms =>
      show Succeeds (timestamp py (value ms "time_utc") utcoffset display_timezone >>= _) ↔ _
      rw [succeeds_bind fun _ _ => iff_of_true (succeeds_pure _) trivial, and_true, succeeds_timestamp]
      simp
  | _ => simp [timeline_row]

theorem entry_accepted {entry : Json} (h : check_entry py entry = .ok ()) :
    ∃ ms, entry = .object ms ∧ ∀ key ∈ appendixKeys, (get ms key).isSome = true := by
  cases entry with
  | object ms =>
      obtain ⟨_, habsent, -⟩ := bind_eq_ok.mp h
      have habsent := List.isEmpty_iff.mp (require_eq_ok.mp habsent)
      refine ⟨ms, rfl, fun key hkey => ?_⟩
      have hnone := List.filter_eq_nil_iff.mp habsent key hkey
      simpa [Option.isNone_iff_eq_none, Option.isSome_iff_ne_none] using hnone
  | _ => cases h

theorem succeeds_appendix_row {entry : Json} (h : check_entry py entry = .ok ()) :
    Succeeds (appendix_row py utcoffset display_timezone entry) ↔
      ∀ ms, entry = .object ms → TimeShown py utcoffset (value ms "execution_timestamp_utc") := by
  obtain ⟨ms, rfl, hkeys⟩ := entry_accepted h
  have hitem := fun key hkey => item_of_isSome (hkeys key hkey)
  simp only [appendix_row, dictionary, ok_bind, hitem "query_id" (by simp [appendixKeys]),
    hitem "spl" (by simp [appendixKeys]), hitem "purpose" (by simp [appendixKeys]),
    hitem "indexes" (by simp [appendixKeys]), hitem "earliest_utc" (by simp [appendixKeys]),
    hitem "latest_utc" (by simp [appendixKeys]), hitem "execution_timestamp_utc" (by simp [appendixKeys]),
    hitem "splunk_job_id" (by simp [appendixKeys]), hitem "result_count" (by simp [appendixKeys]),
    hitem "status" (by simp [appendixKeys]), hitem "errors_or_truncation" (by simp [appendixKeys]), pure_bind]
  rw [succeeds_bind fun _ _ => iff_of_true (succeeds_pure _) trivial, and_true, succeeds_timestamp]
  simp

/-! ### Contents -/

/-- What is left to chance of an accepted content: the keys the renderer prefers can be gone through, the times that
are shown can be converted, and the scopes of the inventories have all of their keys. -/
structure Renderable (py : Interpreter) (utcoffset : Time → Time) (content : Members) : Prop where
  findings : ∀ j, get content "findings" = some j → Iterable j
  evidence : ∀ j, get content "selected_evidence" = some j → Iterable j
  timeline : ∀ ms, .object ms ∈ items (value content "timeline") → TimeShown py utcoffset (value ms "time_utc")
  appendix : ∀ ms, .object ms ∈ items (value content "query_appendix") →
    TimeShown py utcoffset (value ms "execution_timestamp_utc")
  scopes : ∀ answer, .object answer ∈ items (value content "question_answers") →
    ∀ inventory ∈ inventoriesOf answer, ScopeComplete inventory

theorem succeeds_answers {content : Members} (h : Accepted py af aq content) :
    Succeeds (answers_passage py content) ↔ ∀ answer, .object answer ∈ items (value content "question_answers") →
      ∀ inventory ∈ inventoriesOf answer, ScopeComplete inventory := by
  unfold answers_passage
  split
  next hnone => simp [value, hnone, items]
  next answers hsome =>
    obtain ⟨harray, hall⟩ := h.answers answers hsome
    have hvalue : value content "question_answers" = answers := by simp [value, hsome]
    rw [elements_of_isArray harray, ok_bind, succeeds_bind fun _ _ => iff_of_true (succeeds_pure _) trivial, and_true,
      succeeds_mapM, hvalue]
    constructor
    · intro hsucceeds answer hanswer
      obtain ⟨ms, hms, haccepted⟩ := answer_accepted (hall _ hanswer)
      cases hms
      exact (succeeds_answer_text haccepted).mp (hsucceeds _ hanswer)
    · intro hscopes answer hanswer
      obtain ⟨ms, rfl, haccepted⟩ := answer_accepted (hall _ hanswer)
      exact (succeeds_answer_text haccepted).mpr (hscopes ms hanswer)

/-- The items a section is made from, under the key that the renderer prefers. -/
theorem succeeds_preferred {content : Members} {preferred canonical : String}
    (h : isArray (value content canonical) = true) :
    Succeeds (elements ((get content preferred).getD (value content canonical))) ↔
      ∀ j, get content preferred = some j → Iterable j := by
  cases hget : get content preferred with
  | none => simp [elements_of_isArray h]
  | some j => simp [succeeds_elements]

/-- **Sections.** The sections of an accepted content can be written exactly if it is renderable. -/
theorem succeeds_sections {content : Members} (h : Accepted py af aq content) :
    Succeeds (sections py content utcoffset display_timezone) ↔ Renderable py utcoffset content := by
  have htext := fun key hkey => item_of_isText (h.texts key hkey)
  have harray := fun key hkey => item_of_isArray (h.arrays key hkey)
  have hlist : ∀ key ∈ arrayKeys, listOf content key = .ok (items (value content key)) := by
    intro key hkey
    rw [listOf, harray key hkey]
    rfl
  have hevidenceItem : item content "evidence_ids" = .ok (value content "evidence_ids") := by
    rw [harray _ (by simp [arrayKeys]), ← isArray_iff.mp (h.arrays _ (by simp [arrayKeys]))]
  have hfindingsItem : item content (if (get content "findings").isSome then "findings" else "finding_ids") =
      .ok ((get content "findings").getD (value content "finding_ids")) := by
    cases hget : get content "findings" with
    | none =>
        rw [Option.isSome_none, if_neg Bool.false_ne_true, harray _ (by simp [arrayKeys]),
          ← isArray_iff.mp (h.arrays _ (by simp [arrayKeys]))]
        rfl
    | some j =>
        rw [Option.isSome_some, if_pos rfl, item, hget]
        rfl
  simp only [sections, hfindingsItem, hevidenceItem, hlist "timeline" (by simp [arrayKeys]),
    hlist "query_appendix" (by simp [arrayKeys]), hlist "data_sources_used" (by simp [arrayKeys]),
    hlist "coverage" (by simp [arrayKeys]), hlist "limitations" (by simp [arrayKeys]),
    harray "entities" (by simp [arrayKeys]), elements_array, htext "hypothesis" (by simp [textKeys]),
    htext "objective_and_scope" (by simp [textKeys]), htext "conclusion" (by simp [textKeys]),
    htext "disposition" (by simp [textKeys]), ok_bind]
  rw [succeeds_bind fun _ _ => succeeds_bind fun _ _ => succeeds_bind fun _ _ => succeeds_bind fun _ _ =>
    succeeds_bind fun _ _ => iff_of_true (succeeds_pure _) trivial, and_true, succeeds_mapM, succeeds_mapM,
    succeeds_preferred (h.arrays _ (by simp [arrayKeys])), succeeds_answers h,
    succeeds_preferred (h.arrays _ (by simp [arrayKeys]))]
  constructor
  · rintro ⟨htimeline, happendix, hfindings, hscopes, hevidence⟩
    exact ⟨hfindings, hevidence, fun ms hms => succeeds_timeline_row.mp (htimeline _ hms) ms rfl,
      fun ms hms => (succeeds_appendix_row (h.entries _ hms)).mp (happendix _ hms) ms rfl, hscopes⟩
  · rintro ⟨hfindings, hevidence, htimeline, happendix, hscopes⟩
    refine ⟨fun entry hentry => succeeds_timeline_row.mpr ?_, fun entry hentry =>
      (succeeds_appendix_row (h.entries _ hentry)).mpr ?_, hfindings, hscopes, hevidence⟩
    · rintro ms rfl
      exact htimeline ms hentry
    · rintro ms rfl
      exact happendix ms hentry

/-! ### What is accepted with references is accepted without -/

theorem check_ids_none {content : Members} : check_ids py content key none = .ok () := by
  rw [check_ids, require_eq_ok]
  simp

theorem check_answer_none {answer : Json} (h : check_answer py af aq answer = .ok ()) :
    check_answer py none none answer = .ok () := by
  cases answer with
  | object ms =>
      simp only [check_answer, bind_eq_ok, require_eq_ok] at h ⊢
      obtain ⟨_, hfields, _, hleads, _, -, _, hinventories, hall⟩ := h
      refine ⟨(), hfields, (), hleads, (), rfl, (), hinventories, forM_eq_ok.mpr fun inventory hmem => ?_⟩
      obtain ⟨_, hmeasured, -⟩ := bind_eq_ok.mp (forM_eq_ok.mp hall inventory hmem)
      rw [hmeasured, ok_bind]
      rfl
  | _ => cases h

theorem accepted_none {content : Json} {normalized : Members}
    (h : validate_report_content py content af ae aq = .ok normalized) :
    validate_report_content py content none none none = .ok normalized := by
  simp only [validate_report_content, bind_eq_ok, require_eq_ok, pure, Except.pure] at h
  obtain ⟨ms, hnormal, _, hmissing, _, htexts, _, harrays, _, -, _, -, _, -, h⟩ := h
  simp only [validate_report_content, bind_eq_ok, require_eq_ok, pure, Except.pure]
  refine ⟨ms, hnormal, (), hmissing, (), htexts, (), harrays, (), check_ids_none, (), check_ids_none, (), check_ids_none, ?_⟩
  split at h
  next => exact h
  next answers hsome =>
    simp only [bind_eq_ok, require_eq_ok] at h ⊢
    obtain ⟨_, harray, _, hall, hrest⟩ := h
    exact ⟨(), harray, (), forM_eq_ok.mpr fun answer hanswer => check_answer_none (forM_eq_ok.mp hall answer hanswer), hrest⟩

/-- **Rendering.** An accepted content is rendered in a valid time zone exactly if it is renderable. -/
theorem renders_iff {content : Json} {normalized : Members}
    (hvalid : validate_report_content py content af ae aq = .ok normalized)
    (hzone : py.zone display_timezone = some utcoffset) :
    (∃ document, render_report_html py content display_timezone = .ok document) ↔ Renderable py utcoffset normalized := by
  have hnone := accepted_none hvalid
  rw [← succeeds_sections (accepted hvalid).2, render_report_html, hzone]
  dsimp only
  rw [hnone, ok_bind]
  constructor
  · rintro ⟨document, hok⟩
    obtain ⟨passages, hpassages, -⟩ := bind_eq_ok.mp hok
    exact ⟨passages, hpassages⟩
  · rintro ⟨passages, hpassages⟩
    rw [hpassages]
    exact ⟨_, rfl⟩

theorem renders_iff_sample :
    ∃ normalized, validate_report_content samplePy (.object (sampleMembers "h")) none none none = .ok normalized ∧
      ((∃ document, render_report_html samplePy (.object (sampleMembers "h")) "UTC" = .ok document) ↔
        Renderable samplePy (fun _ => 0) normalized) := by
  have hvalid : (validate_report_content samplePy (.object (sampleMembers "h")) none none none).toBool = true := by
    decide +kernel
  obtain ⟨normalized, hnormalized⟩ := exists_of_toBool hvalid
  exact ⟨normalized, hnormalized, renders_iff hnormalized rfl⟩

/-- A content whose `findings` are a number. -/
def numberedMembers : Members := ("findings", .int 1) :: sampleMembers "h"

theorem findings_not_rendered :
    (∃ normalized, validate_report_content samplePy (.object numberedMembers) none none none = .ok normalized) ∧
      ¬∃ document, render_report_html samplePy (.object numberedMembers) "UTC" = .ok document := by
  have hvalid : (validate_report_content samplePy (.object numberedMembers) none none none).toBool = true := by
    decide +kernel
  obtain ⟨normalized, hnormalized⟩ := exists_of_toBool hvalid
  refine ⟨⟨normalized, hnormalized⟩, ?_⟩
  rintro ⟨document, hdocument⟩
  obtain ⟨ms, utcoffset, passages, hcontent, -, hsections, -⟩ := render_eq_ok hdocument
  cases hcontent
  obtain ⟨hcontent, haccepted⟩ := accepted hnormalized
  cases hcontent
  exact ((succeeds_sections haccepted).mp ⟨passages, hsections⟩).findings (.int 1) rfl

end HtmlReport

end ThreatHunting
