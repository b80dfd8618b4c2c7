import ThreatHunting.Lib.Spread
import ThreatHunting.Services.EvidenceLookup

/-!
# ThreatHunting.Services.Timeline

`retained_timeline` of `services/evidence.py`, and the excerpt of it that
`_concise_report_content` puts into a report. The timeline is the retained raw records by
time, those of unknown time last. A report shows twenty of them: the known and the unknown
times get a share each, and either share is spread over its part of the timeline.
-/

namespace ThreatHunting

namespace EvidenceLookup

open Fallible
open ModelOutput (Members PyError get iterate query_results_incomplete)
open Spl (Time)

/-! ### Texts of times -/

/-- The decimal digits of `n`, `width` of them. -/
def decimal : Nat → Nat → List Char
  | 0, _ => []
  | width + 1, n => decimal width (n / 10) ++ [Nat.digitChar (n % 10)]

/-- The date a number of days after the first of March of the year 0. -/
def civil (days : Nat) : Nat × Nat × Nat :=
  let era := days / 146097
  let doe := days % 146097
  let yoe := (doe - doe / 1460 + doe / 36524 - doe / 146096) / 365
  let doy := doe - (365 * yoe + yoe / 4 - yoe / 100)
  let mp := (5 * doy + 2) / 153
  let month := if mp < 10 then mp + 3 else mp - 9
  (yoe + era * 400 + (if month ≤ 2 then 1 else 0), month, doy - (153 * mp + 2) / 5 + 1)

/-- `stamp.isoformat().replace("+00:00", "Z")` of a UTC time, counted in microseconds from 1970. -/
def isoformat (stamp : Time) : String :=
  let microseconds := (stamp + 719468 * 86400000000).toNat
  let (year, month, day) := civil (microseconds / 86400000000)
  let seconds := microseconds / 1000000 % 86400
  let fraction := microseconds % 1000000
  let date := decimal 4 year ++ '-' :: decimal 2 month ++ '-' :: decimal 2 day
  let time := decimal 2 (seconds / 3600) ++ ':' :: decimal 2 (seconds / 60 % 60) ++ ':' :: decimal 2 (seconds % 60)
  String.ofList ((date ++ 'T' :: time ++ (if fraction = 0 then [] else '.' :: decimal 6 fraction)) ++ ['Z'])

example : isoformat 1767261600000000 = "2026-01-01T10:00:00Z" := by decide +kernel

/-- The text of a time is not the text of an unknown one. -/
theorem isoformat_ne_unknown (stamp : Time) : isoformat stamp ≠ "unknown" := by
  intro h
  have hlast : (isoformat stamp).toList.getLast? = some 'Z' := by
    simp only [isoformat, String.toList_ofList, List.getLast?_concat]
  rw [h] at hlast
  revert hlast
  decide

/-! ### The timeline -/

/-- One place of the timeline. -/
structure TimelineReference where
  evidence_id : String
  query_id : String
  event_time_utc : String
  query_coverage : String
  deriving DecidableEq, Repr

/-- A raw record with its time. -/
abbrev Observation := Option Time × Members

variable (py : Interpreter)

/-- `str(record.get(key, "unknown"))`. -/
def textOr (record : Members) (key : String) : String := ((get record key).map py.text).getD "unknown"

/-- The last of the records that have a text under a key, as a dictionary by that text has it. -/
def lastBy (records : List Members) (key id : String) : Option Members :=
  (records.filter fun record => py.text (value record key) = id).getLast?

/-- `observations`: the raw records, by time, and in their own order where that does not decide. -/
def observations (evidence : List Members) : List Observation :=
  ((evidence.filter is_raw_event).map fun record => (raw_event_time py record, record)).insertionSort
    fun a b => earlier a.1 b.1 = true

/-- What the retrieval of a record's query says. -/
def coverage : Option Members → String
  | none => "unknown"
  | some query =>
      if query_results_incomplete query then "incomplete"
      else if get query "status" = some (.string "completed") then "complete"
      else "unknown"

/-- The place of a record in the timeline. -/
def timeline_reference (queries : List Members) (o : Observation) : TimelineReference where
  evidence_id := textOr py o.2 "evidence_id"
  query_id := textOr py o.2 "query_id"
  event_time_utc := (o.1.map isoformat).getD "unknown"
  query_coverage := coverage (lastBy py queries "query_id" (textOr py o.2 "query_id"))

/-- The dictionaries of a list of the results. -/
def resultList (results : Members) (key : String) : Except PyError (List Members) := do
  return mappings (← iterate ((get results key).getD (.array [])))

/-- `retained_timeline`. -/
def retained_timeline (results : Members) : Except PyError (List TimelineReference) := do
  let queries ← resultList results "queries"
  let evidence ← resultList results "evidence"
  return (observations py evidence).map (timeline_reference py queries)

/-! ### Time bounds -/

/-- What `evidence_time_bounds` says of some records. -/
structure TimeBounds where
  first_observed_utc : String
  last_observed_utc : String
  timestamped_record_count : Nat
  unknown_time_record_count : Nat
  aggregate_row_count : Nat
  continuous_coverage_established : Bool
  limitation : String
  deriving DecidableEq

/-- `evidence_time_bounds`. -/
def evidence_time_bounds (records : List Members) : TimeBounds :=
  let raw := records.filter is_raw_event
  let times := raw.filterMap (raw_event_time py)
  let unknown := raw.countP fun record => (raw_event_time py record).isNone
  let aggregate := records.countP fun record => !is_raw_event record
  let first := (times.min?.map isoformat).getD "unknown"
  let last := (times.max?.map isoformat).getD "unknown"
  { first_observed_utc := first
    last_observed_utc := last
    timestamped_record_count := times.length
    unknown_time_record_count := unknown
    aggregate_row_count := aggregate
    continuous_coverage_established := false
    limitation :=
      (if times.isEmpty then "Retained records do not establish raw-event time bounds. "
        else "Retained raw-event timestamps: " ++ first ++ " to " ++ last ++ " (" ++ toString times.length ++
          " record(s)). ") ++
      (if unknown ≠ 0 ∨ aggregate ≠ 0 then "Excluded " ++ toString unknown ++ " record(s) with unknown time and " ++
          toString aggregate ++ " aggregate row(s) from those bounds. " else "") ++
      "Point observations do not establish continuous activity or telemetry coverage throughout " ++
      "the approved hunt window." }

/-! ### The excerpt -/

/-- `REPORT_LIST_LIMITS["timeline"]`. -/
def timeline_limit : Nat := 20

/-- How many of `known` known times an excerpt of `limit` places shows. -/
def known_limit (limit known raw_count : Nat) : Nat := min known (max 2 (limit * known / raw_count))

/-- `timeline_refs` as the report has it; `none` where an index leaves the list. -/
def excerpt (limit : Nat) (timeline_refs : List TimelineReference) : Option (List TimelineReference) :=
  if limit < timeline_refs.length then
    let known := timeline_refs.filter (·.event_time_utc ≠ "unknown")
    let unknown := timeline_refs.filter (·.event_time_utc = "unknown")
    let count := known_limit limit known.length timeline_refs.length
    do return (← Spread.picks known count) ++ (← Spread.picks unknown (limit - count))
  else some timeline_refs

/-- The fields of an event that a report repeats. -/
def timelineFields : List String :=
  ["host", "user", "action", "result", "session_id", "logon_id", "logon_type", "process", "process_guid",
    "parent_process", "parent_process_guid", "file_name", "file_hash", "file_hash_type", "module",
    "module_path", "image_loaded", "src_ip", "dest_ip", "src_port", "dest_port", "query", "query_name",
    "dns_query"]

/-- One entry of the report's timeline. -/
def timeline_entry (all_evidence : List Members) (reference : TimelineReference) : Members :=
  let event := ((lastBy py all_evidence "evidence_id" reference.evidence_id).bind (get · "selected_result")).getD
    (.object [])
  let fields := match event with
    | .object event => timelineFields.filterMap fun key => (get event key).map (key, ·)
    | _ => []
  [("event_time_utc", .string reference.event_time_utc)] ++ fields ++
    [("evidence_id", .string reference.evidence_id), ("query_id", .string reference.query_id),
      ("query_coverage", .string reference.query_coverage)]

/-- The timeline of a report. -/
def report_timeline (results : Members) : Except PyError (Option (List Members)) := do
  let all_evidence ← resultList results "evidence"
  let timeline_refs ← retained_timeline py results
  return (excerpt timeline_limit timeline_refs).map (List.map (timeline_entry py all_evidence))

/-! ### What the excerpt shows -/

section

variable {py} {evidence : List Members} {o : Observation}

/-- The timeline goes by time, unknown times last. -/
theorem observations_sorted (evidence : List Members) :
    (observations py evidence).Pairwise fun a b => earlier a.1 b.1 = true := by
  have : Std.Total fun a b : Observation => earlier a.1 b.1 = true := ⟨by
    rintro ⟨_ | a, _⟩ ⟨_ | b, _⟩ <;> simp [earlier, le_total]⟩
  have : IsTrans Observation fun a b => earlier a.1 b.1 = true := ⟨by
    rintro ⟨_ | a, _⟩ ⟨_ | b, _⟩ ⟨_ | c, _⟩ <;> simp [earlier]
    exact le_trans⟩
  exact List.pairwise_insertionSort _ _

/-- Is the time of a record known? -/
def Observation.known (o : Observation) : Bool := o.1.isSome

/-- A list in which what passes comes first is what passes, then the rest. -/
theorem filter_append_filter_not {α : Type} {p : α → Bool} {xs : List α}
    (h : xs.Pairwise fun a b => p b = true → p a = true) : xs.filter p ++ xs.filter (!p ·) = xs := by
  induction xs with
  | nil => rfl
  | cons a xs ih =>
      obtain ⟨hfirst, hrest⟩ := List.pairwise_cons.mp h
      cases ha : p a with
      | true => simpa [ha] using ih hrest
      | false =>
          have hnone : ∀ b ∈ xs, p b = false := by
            intro b hb
            by_contra hpb
            exact absurd (hfirst b hb (by simpa using hpb)) (by simp [ha])
          have hpass : xs.filter p = [] := by simpa [List.filter_eq_nil_iff] using hnone
          have hrest : xs.filter (!p ·) = xs := List.filter_eq_self.mpr (by simpa using hnone)
          simp [ha, hpass, hrest]

/-- Known times come before unknown ones. -/
theorem known_append_unknown (evidence : List Members) :
    (observations py evidence).filter Observation.known ++
      (observations py evidence).filter (!·.known) = observations py evidence := by
  refine filter_append_filter_not ((observations_sorted evidence).imp fun {a b} hab hb => ?_)
  obtain ⟨_ | t, record⟩ := a
  · obtain ⟨_ | t', record'⟩ := b
    · exact hb
    · cases hab
  · rfl

/-- The known times of the references are those of the records. -/
theorem filter_known (queries : List Members) (os : List Observation) :
    (os.map (timeline_reference py queries)).filter (·.event_time_utc ≠ "unknown") =
        (os.filter Observation.known).map (timeline_reference py queries) ∧
      (os.map (timeline_reference py queries)).filter (·.event_time_utc = "unknown") =
        (os.filter (!·.known)).map (timeline_reference py queries) := by
  have hknown : ∀ o : Observation,
      (timeline_reference py queries o).event_time_utc = "unknown" ↔ o.known = false := by
    rintro ⟨_ | t, record⟩
    · exact ⟨fun _ => rfl, fun _ => rfl⟩
    · exact ⟨fun h => absurd h (isoformat_ne_unknown t), fun h => by cases h⟩
  rw [List.filter_map, List.filter_map]
  constructor
  · refine congrArg _ (List.filter_congr fun o _ => ?_)
    simp [hknown]
  · refine congrArg _ (List.filter_congr fun o _ => ?_)
    simp [hknown]

/-- The shares of the known and the unknown times in an excerpt. -/
structure Shares (limit known unknown count : Nat) : Prop where
  known_le : count ≤ known
  le : count ≤ limit
  unknown_le : limit - count ≤ unknown
  unknown_pos : 0 < unknown → 0 < limit - count
  known_pos : 0 < known → 0 < count
  both_ends : 2 ≤ known → 2 ≤ count

/-- The shares fit into their parts, and a part that is not empty has one. -/
theorem shares {limit known unknown : Nat} (hlimit : 2 < limit) (hmany : limit < known + unknown) :
    Shares limit known unknown (known_limit limit known (known + unknown)) := by
  have hpos : 0 < known + unknown := by omega
  have hle : limit * known / (known + unknown) ≤ limit :=
    Nat.div_le_of_le_mul (by rw [Nat.mul_comm]; exact Nat.mul_le_mul_right _ (Nat.le_add_right _ _))
  have hlt : 0 < unknown → limit * known / (known + unknown) < limit := fun hu =>
    (Nat.div_lt_iff_lt_mul hpos).mpr (Nat.mul_lt_mul_of_pos_left (by omega) (by omega))
  have hge : limit - unknown ≤ limit * known / (known + unknown) := by
    rw [Nat.le_div_iff_mul_le hpos, Nat.sub_mul, Nat.mul_add]
    have : limit * unknown ≤ unknown * (known + unknown) := by
      rw [Nat.mul_comm]
      exact Nat.mul_le_mul_left _ hmany.le
    omega
  simp only [known_limit]
  constructor <;> omega

/-- What an excerpt shows of a timeline. -/
structure Shows (os picked : List Observation) : Prop where
  length : picked.length = timeline_limit
  in_order : picked.Sublist os
  earliest : ∀ o ∈ os, ∀ t, o.1 = some t → ∃ first ∈ picked, ∃ t₀, first.1 = some t₀ ∧
    ∀ o ∈ os, ∀ t, o.1 = some t → t₀ ≤ t
  latest : ∀ o ∈ os, ∀ t, o.1 = some t → ∃ last ∈ picked, ∃ t₁, last.1 = some t₁ ∧
    ∀ o ∈ os, ∀ t, o.1 = some t → t ≤ t₁
  unknown : ∀ o ∈ os, o.1 = none → ∃ o ∈ picked, o.1 = none

/-- The first known time is the earliest, the last one is the latest. -/
theorem known_ends (evidence : List Members) :
    (∀ first ∈ ((observations py evidence).filter Observation.known).head?, ∃ t₀, first.1 = some t₀ ∧
      ∀ o ∈ observations py evidence, ∀ t, o.1 = some t → t₀ ≤ t) ∧
    ∀ last ∈ ((observations py evidence).filter Observation.known).getLast?, ∃ t₁, last.1 = some t₁ ∧
      ∀ o ∈ observations py evidence, ∀ t, o.1 = some t → t ≤ t₁ := by
  have hsorted := (@observations_sorted py evidence).filter Observation.known
  have hmem : ∀ o ∈ observations py evidence, ∀ t, o.1 = some t →
      o ∈ (observations py evidence).filter Observation.known := fun o ho t ht =>
    List.mem_filter.mpr ⟨ho, by simp [Observation.known, ht]⟩
  have hknown : ∀ o ∈ (observations py evidence).filter Observation.known, ∃ t, o.1 = some t := fun o ho =>
    Option.isSome_iff_exists.mp (List.mem_filter.mp ho).2
  constructor
  · intro first hfirst
    obtain ⟨rest, hrest⟩ := List.head?_eq_some_iff.mp hfirst
    rw [hrest] at hsorted hmem hknown
    obtain ⟨t₀, ht₀⟩ := hknown first List.mem_cons_self
    refine ⟨t₀, ht₀, fun o ho t ht => ?_⟩
    rcases List.mem_cons.mp (hmem o ho t ht) with rfl | hlater
    · exact (Option.some.inj (ht₀.symm.trans ht)).le
    · simpa [earlier, ht₀, ht] using (List.pairwise_cons.mp hsorted).1 o hlater
  · intro last hlast
    obtain ⟨init, hinit⟩ := List.getLast?_eq_some_iff.mp hlast
    rw [hinit] at hsorted hmem hknown
    obtain ⟨t₁, ht₁⟩ := hknown last (by simp)
    refine ⟨t₁, ht₁, fun o ho t ht => ?_⟩
    rcases List.mem_append.mp (hmem o ho t ht) with hbefore | hlast
    · simpa [earlier, ht₁, ht] using (List.pairwise_append.mp hsorted).2.2 o hbefore last (by simp)
    · obtain rfl := List.mem_singleton.mp hlast
      exact (Option.some.inj (ht.symm.trans ht₁)).le

/-- An excerpt of a long timeline. -/
theorem excerpt_shows (queries evidence : List Members) (hmany : timeline_limit < (observations py evidence).length) :
    ∃ picked, excerpt timeline_limit ((observations py evidence).map (timeline_reference py queries)) =
        some (picked.map (timeline_reference py queries)) ∧ Shows (observations py evidence) picked := by
  have hsplit := @known_append_unknown py evidence
  obtain ⟨hfirst, hlast⟩ := @known_ends py evidence
  obtain ⟨hknown, hunknown⟩ := @filter_known py queries (observations py evidence)
  have hlength := congrArg List.length hsplit
  rw [List.length_append] at hlength
  have hshares := shares (by decide : 2 < timeline_limit) (hlength ▸ hmany)
  rw [excerpt, if_pos (by simpa using hmany)]
  simp only [hknown, hunknown, Spread.picks_map, List.length_map]
  rw [← hlength]
  generalize hk : (observations py evidence).filter Observation.known = known at *
  generalize hu : (observations py evidence).filter (!·.known) = unknown at *
  generalize known_limit timeline_limit known.length (known.length + unknown.length) = count at hshares ⊢
  obtain ⟨ks, hks, hkslen, hkssub, hkshead, hkslast⟩ := Spread.picks_spec hshares.known_le
  obtain ⟨us, hus, huslen, hussub, hushead, -⟩ := Spread.picks_spec hshares.unknown_le
  refine ⟨ks ++ us, by simp [hks, hus], ?_⟩
  have hpos : ∀ o ∈ observations py evidence, ∀ t, o.1 = some t → 0 < known.length := fun o ho t ht =>
    List.length_pos_of_mem (hk ▸ List.mem_filter.mpr ⟨ho, by simp [Observation.known, ht]⟩)
  constructor
  case length =>
    have := hshares.le
    rw [List.length_append, hkslen, huslen]
    omega
  case in_order => exact hsplit ▸ hkssub.append hussub
  case earliest =>
    intro o ho t ht
    obtain ⟨first, hmem⟩ : ∃ first, known.head? = some first :=
      ⟨_, List.head?_eq_some_head (List.ne_nil_of_length_pos (hpos o ho t ht))⟩
    have hpicked : first ∈ ks :=
      List.mem_of_head? ((hkshead (hshares.known_pos (hpos o ho t ht))).trans hmem)
    exact ⟨first, List.mem_append_left _ hpicked, hfirst first hmem⟩
  case latest =>
    intro o ho t ht
    have hcount := hshares.known_pos (hpos o ho t ht)
    obtain ⟨last, hmem⟩ : ∃ last, known.getLast? = some last :=
      ⟨_, List.getLast?_eq_some_getLast (List.ne_nil_of_length_pos (hpos o ho t ht))⟩
    have hpicked : last ∈ ks := by
      rcases Nat.lt_or_ge 1 known.length with htwo | hone
      · exact List.mem_of_getLast? ((hkslast (hshares.both_ends htwo)).trans hmem)
      · -- the only record of known time is both the first and the last one
        obtain ⟨only, rfl⟩ := List.length_eq_one_iff.mp (le_antisymm hone (hpos o ho t ht))
        obtain rfl : only = last := by simpa using hmem
        exact List.mem_of_head? ((hkshead hcount).trans rfl)
    exact ⟨last, List.mem_append_left _ hpicked, hlast last hmem⟩
  case unknown =>
    intro o ho hnone
    have hunknown : 0 < unknown.length :=
      List.length_pos_of_mem (hu ▸ List.mem_filter.mpr ⟨ho, by simp [Observation.known, hnone]⟩)
    obtain ⟨u, hmem⟩ := List.exists_mem_of_length_pos (huslen ▸ hshares.unknown_pos hunknown)
    have hmem' := hussub.subset hmem
    rw [← hu, List.mem_filter] at hmem'
    exact ⟨u, List.mem_append_right _ hmem, by simpa [Observation.known] using hmem'.2⟩

/-- **Excerpt.** From more raw records than a report shows, the report shows twenty of them in timeline
order, no record twice, with the earliest and the latest one of known time and one of unknown
time, as far as there are such. -/
theorem timeline_excerpt {results : Members} {timeline : List TimelineReference}
    (htimeline : retained_timeline py results = .ok timeline) (hmany : timeline_limit < timeline.length)
    (hids : (timeline.map (·.evidence_id)).Nodup) :
    ∃ (queries evidence : List Members) (picked : List Observation),
      timeline = (observations py evidence).map (timeline_reference py queries) ∧
      report_timeline py results =
        .ok (some (picked.map fun o => timeline_entry py evidence (timeline_reference py queries o))) ∧
      Shows (observations py evidence) picked ∧ (picked.map fun o => textOr py o.2 "evidence_id").Nodup := by
  obtain ⟨queries, hqueries, hrest⟩ := bind_eq_ok.mp htimeline
  obtain ⟨evidence, hevidence, hrest⟩ := bind_eq_ok.mp hrest
  obtain rfl := Except.ok.inj hrest
  rw [List.length_map] at hmany
  obtain ⟨picked, hexcerpt, hshows⟩ := excerpt_shows queries evidence hmany
  refine ⟨queries, evidence, picked, rfl, ?_, hshows, ?_⟩
  · rw [report_timeline, hevidence, ok_bind, htimeline, ok_bind, hexcerpt]
    simp [Function.comp_def]
    rfl
  · rw [List.map_map] at hids
    exact hids.sublist (hshows.in_order.map _)

/-- Twenty-five raw records, the first four of them of known time. -/
def sampleRecords : List Members :=
  (List.range 25).map fun n =>
    [("evidence_id", .string (toString n)), ("query_id", .string "q-1"),
      ("event_time_utc", .string (if n < 4 then "2026-01-01T10:00:00Z" else "invalid-time"))]

/-- Results that retain them. -/
def sampleTimeline : Members := [("evidence", .array (sampleRecords.map .object))]

theorem timeline_excerpt_of_mixed_times :
    ∃ (queries evidence : List Members) (picked : List Observation),
      report_timeline sampleInterpreter sampleTimeline =
        .ok (some (picked.map fun o =>
          timeline_entry sampleInterpreter evidence (timeline_reference sampleInterpreter queries o))) ∧
      picked.length = timeline_limit := by
  have htimeline : retained_timeline sampleInterpreter sampleTimeline =
      .ok ((observations sampleInterpreter sampleRecords).map (timeline_reference sampleInterpreter [])) := rfl
  obtain ⟨queries, evidence, picked, -, hreport, hshows, -⟩ :=
    timeline_excerpt htimeline (by decide +kernel) (by decide +kernel)
  exact ⟨queries, evidence, picked, hreport, hshows.length⟩

end

end EvidenceLookup

end ThreatHunting
