import ThreatHunting.Lib.Grouping
import ThreatHunting.Services.ModelOutput
import ThreatHunting.Spl.Policy

/-!
# ThreatHunting.Services.EvidenceLookup

`compact_evidence_records` and `lookup_retained_evidence` of `services/evidence.py`. Retained rows
are dictionaries, read as the source reads them. A row is merged into an earlier one of the same
representation, and a lookup returns a page of the rows that are left.

A lookup is to lose nothing: the pages mention every matching row once, only rows of one
representation are merged, and merging again changes nothing. The key that rows are
grouped by writes a row of unknown source as `["query", query_id]`, which is also what a known
source of the index `query` looks like.
-/

namespace ThreatHunting

namespace EvidenceLookup

open Fallible Grouping
open ModelOutput (Members PyError get set iterate get_set get_filter)
open Spl (Time)

/-- What the module takes from the interpreter. -/
structure Interpreter where
  db : UnicodeData
  /-- `str` of a value that is not a string. -/
  str : Json → String
  /-- The UTC time a text stands for; `none` where `fromisoformat` or `ensure_utc` raises. -/
  event_time : String → Option Time

/-- `str(value)`. -/
def Interpreter.text (py : Interpreter) : Json → String
  | .string s => s
  | j => py.str j

/-- `d[key]`. -/
def item (ms : Members) (key : String) : Except PyError Json :=
  match get ms key with
  | some j => .ok j
  | none => .error .key_error

/-- `d.get(key)`, where a missing value is `None`. -/
def value (ms : Members) (key : String) : Json := (get ms key).getD .null

/-- `record.get("evidence_kind", "raw_event") == "raw_event"`. -/
def is_raw_event (record : Members) : Bool :=
  (get record "evidence_kind").all (· = .string "raw_event")

/-- The dictionaries among the items of a list. -/
def mappings (items : List Json) : List Members :=
  items.filterMap fun
    | .object ms => some ms
    | _ => none

section Model

variable (py : Interpreter)

/-- `raw_event_time`. -/
def raw_event_time (record : Members) : Option Time :=
  if is_raw_event record then
    match get record "event_time_utc" with
    | some (.string stamp) => py.event_time stamp
    | _ => none
  else none

/-! ### Sources -/

/-- Does a projected field leave `value` possible? -/
def admits (row : Members) (field value : String) : Bool :=
  match get row field with
  | none => true
  | some (.array items) => !items.isEmpty && items.all (· = .string value)
  | some j => j = .string value

/-- A pair of index and sourcetype. -/
abbrev SourcePair := String × String

/-- `("unknown", "unknown")`. -/
def unknownSource : SourcePair := ("unknown", "unknown")

/-- `result_source`. -/
def result_source (row : Members) (pairs : List SourcePair) : SourcePair :=
  match pairs.filter fun pair => admits row "index" pair.1 && admits row "sourcetype" pair.2 with
  | [pair] => pair
  | _ => unknownSource

/-- The source pairs of one query; none if its text is refused. -/
def query_pairs (query : Members) : List SourcePair :=
  match Spl.source_pairs py.db (py.text ((get query "spl").getD (.string ""))).toList with
  | .ok pairs => pairs.eraseDups.map fun pair => (String.ofList pair.1, String.ofList pair.2)
  | .error _ => []

/-- `pairs`: the source pairs of each query, by its id. -/
def source_table (queries : List Members) : Except PyError (String → List SourcePair) :=
  queries.foldlM (fun table query => do
    let query_id ← item query "query_id"
    return Function.update table (py.text query_id) (query_pairs py query)) fun _ => []

/-! ### Compaction -/

/-- `row.get("selected_result", {})`, which must have a `get`. -/
def selected_result (row : Members) : Except PyError Members :=
  match get row "selected_result" with
  | none => .ok []
  | some (.object event) => .ok event
  | some _ => .error .attribute_error

/-- A native identity: the first of `_cd` and `event_id` that is a text and not empty. -/
def native_identity (event : Members) : Option String :=
  ["_cd", "event_id"].findSome? fun key =>
    match get event key with
    | some (.string s) => if s.isEmpty then none else some s
    | _ => none

/-- `namespace`. -/
def namespaceOf (source : SourcePair) (query_id : Json) : Json :=
  if source ≠ unknownSource then .array [.string source.1, .string source.2]
  else .array [.string "query", query_id]

/-- The `key` of a row, up to the order of members; none if the row is kept as it is. -/
def representation_key (table : String → List SourcePair) (row : Members) :
    Except PyError (Option Json) := do
  let event ← selected_result row
  match native_identity event with
  | none => return none
  | some identity =>
      if is_raw_event row then do
        let query_id ← item row "query_id"
        let source := result_source event (table (py.text query_id))
        return some (Json.sorted (.array [namespaceOf source query_id, .string identity,
          value row "event_time_utc", .object event]))
      else return none

/-- `groups[key].setdefault("duplicate_references", []).append(origin)`. -/
def add_reference (group row : Members) : Except PyError Members :=
  let origin := Json.object (row.filter (·.1 ≠ "selected_result"))
  match get group "duplicate_references" with
  | none => .ok (set group "duplicate_references" (.array [origin]))
  | some (.array references) => .ok (set group "duplicate_references" (.array (references ++ [origin])))
  | some _ => .error .attribute_error

/-- `compact_evidence_records`. -/
def compact_evidence_records (records queries : List Members) : Except PyError (List Members) := do
  let table ← source_table py queries
  let slots ← group add_reference (representation_key py table) records
  return slots.map Slot.item

/-! ### Lookup -/

/-- `_retained_scalar_key`: the type of a finite scalar and its text. -/
def retained_scalar_key : Json → Option (String × List Char)
  | .string s => some ("str", Json.quote s)
  | .int n => some ("int", (toString n).toList)
  | .float repr => some ("float", repr.toList)
  | .bool b => some ("bool", (toString b).toList)
  | _ => none

/-- The members of a field, which may have several values. -/
def field_members (event : Members) (field : String) : List Json :=
  match get event field with
  | some (.array items) => items
  | some j => [j]
  | none => [.null]

/-- What `retained_field_counts` says of one field. -/
structure FieldCount where
  field : String
  distinct_literal_value_count : Nat
  distinct_unambiguous_value_count : Nat
  rows_with_missing_or_nonscalar_value : Nat
  rows_with_multiple_distinct_values : Nat
  deriving DecidableEq

/-- `item["selected_result"].get(field)`, as scalar keys. -/
def field_keys (field : String) (row : Members) : Except PyError (List (String × List Char)) := do
  match ← item row "selected_result" with
  | .object event => return ((field_members event field).filterMap retained_scalar_key).eraseDups
  | _ => .error .attribute_error

/-- `retained_field_counts`. -/
def retained_field_counts (rows : List Members) (fields : List String) : Except PyError (List FieldCount) :=
  fields.eraseDups.mapM fun field => do
    let keys ← rows.mapM (field_keys field)
    return {
      field
      distinct_literal_value_count := keys.flatten.eraseDups.length
      distinct_unambiguous_value_count := (keys.filter (·.length = 1)).flatten.eraseDups.length
      rows_with_missing_or_nonscalar_value := keys.countP (·.isEmpty)
      rows_with_multiple_distinct_values := keys.countP (1 < ·.length) }

/-- What a lookup asks for. -/
structure LookupRequest where
  query_ids : List String
  filters : Members
  earliest_utc : Option Time
  latest_utc : Option Time
  distinct_fields : List String
  include_records : Bool

/-- What a lookup raises: `Validation`, or an exception of the interpreter. -/
inductive LookupError
  | validation (message : String)
  | raised (e : PyError)
  deriving DecidableEq

/-- What the loop of the lookup makes of one retained row. -/
inductive Match
  | aggregate
  | other
  | unknown_time
  | row (stamp : Option Time)
  deriving DecidableEq

/-- Does an event have the values the filters ask for? -/
def passes (filters event : Members) : Bool :=
  filters.all fun (field, filter) =>
    retained_scalar_key filter ∈ (field_members event field).map retained_scalar_key

/-- One round of the loop. -/
def classify (request : LookupRequest) (row : Members) : Match :=
  if !is_raw_event row then .aggregate
  else match (get row "selected_result").getD (.object []) with
    | .object event =>
        if !passes request.filters event then .other
        else
          let stamp := raw_event_time py row
          if request.earliest_utc.isNone && request.latest_utc.isNone then .row stamp
          else match stamp with
            | none => .unknown_time
            | some time =>
                if request.earliest_utc.any (time < ·) || request.latest_utc.any (· ≤ time) then .other
                else .row stamp
    | _ => .other

/-- Rows of known time first, by time. -/
def earlier : Option Time → Option Time → Bool
  | some a, some b => a ≤ b
  | none, some _ => false
  | _, none => true

/-- `rows`: the matching rows by time, and in their own order where that does not decide. -/
def matching_rows (request : LookupRequest) (retained : List Members) : List Members :=
  let stamped := retained.filterMap fun row =>
    match classify py request row with
    | .row stamp => some (stamp, row)
    | _ => none
  (stamped.insertionSort fun a b => earlier a.1 b.1 = true).map (·.2)

/-- What a lookup says of one of its queries. -/
structure QueryCoverage where
  query_id : String
  result_count : Json
  retained_evidence_count : Nat
  query_truncated : Json
  available_result_count : Json
  retrieval_stop_reason : Json
  deriving DecidableEq

/-- The inventory of a lookup. -/
structure Inventory where
  query_ids : List String
  query_coverage : List QueryCoverage
  matching_raw_record_count : Nat
  aggregate_rows_excluded : Nat
  unobserved_filter_fields : List String
  unknown_time_rows_excluded_by_window : Nat
  distinct_fields : List FieldCount

/-- The page of a lookup with records. -/
structure RecordPage where
  matching_representation_group_count : Nat
  offset : Nat
  effective_limit : Nat
  next_offset : Option Nat
  records : List Members

/-- `completed`, by query id. -/
def completed_queries (results : Members) : Except PyError Members := do
  let queries ← iterate ((get results "queries").getD (.array []))
  (mappings queries).foldlM (fun completed query => do
    if value query "status" = .string "completed" then
      return set completed (py.text (← item query "query_id")) (.object query)
    else return completed) []

/-- `retained`. -/
def retained_rows (request : LookupRequest) (results : Members) : Except PyError (List Members) := do
  let evidence ← iterate ((get results "evidence").getD (.array []))
  return (mappings evidence).filter fun row => py.text (value row "query_id") ∈ request.query_ids

/-- `if not holds: raise Validation(message)`. -/
def require (holds : Bool) (message : String) : Except LookupError Unit :=
  if holds then .ok () else .error (.validation message)

/-- The checks of a request. -/
def check_request (request : LookupRequest) (completed : Members) (offset limit max_rows : Int) :
    Except LookupError Unit := do
  require (!request.query_ids.isEmpty && request.query_ids.all fun id => (get completed id).isSome)
    "retained evidence lookup requires completed queries from this hunt"
  require (0 ≤ offset && 0 < min limit max_rows)
    "retained evidence lookup requires a nonnegative offset and positive row limits"
  require (!request.earliest_utc.any fun earliest => request.latest_utc.any (· ≤ earliest))
    "retained evidence lookup requires an increasing time window"
  require (!(request.filters.map (·.1) ++ request.distinct_fields).any fun field =>
    (strip field.toList).isEmpty) "retained evidence lookup field names must be nonempty strings"
  require (request.filters.all fun filter => (retained_scalar_key filter.2).isSome)
    "retained evidence lookup filters require finite scalar values"

/-- The inventory of the matching rows. -/
def inventory (request : LookupRequest) (completed : Members) (retained rows : List Members) :
    Except PyError Inventory := do
  let counts ← retained_field_counts rows request.distinct_fields
  let observed := (retained.filter is_raw_event).flatMap fun row =>
    match get row "selected_result" with
    | some (.object event) => event.map (·.1)
    | _ => []
  let query_ids := request.query_ids.eraseDups.insertionSort (· ≤ ·)
  return {
    query_ids
    query_coverage := query_ids.map fun query_id =>
      let query := (mappings (get completed query_id).toList).headD []
      { query_id
        result_count := value query "result_count"
        retained_evidence_count := retained.countP fun row => py.text (value row "query_id") = query_id
        query_truncated := value query "truncated"
        available_result_count := value query "available_result_count"
        retrieval_stop_reason := value query "retrieval_stop_reason" }
    matching_raw_record_count := rows.length
    aggregate_rows_excluded := retained.countP fun row => classify py request row = .aggregate
    unobserved_filter_fields :=
      ((request.filters.map (·.1)).filter (· ∉ observed)).insertionSort (· ≤ ·)
    unknown_time_rows_excluded_by_window := retained.countP fun row =>
      classify py request row = .unknown_time
    distinct_fields := counts }

/-- The page of the compacted rows at an offset. -/
def record_page (compacted : List Members) (offset effective_limit : Nat) : RecordPage :=
  let page := (compacted.drop offset).take effective_limit
  let next_offset := offset + page.length
  { matching_representation_group_count := compacted.length
    offset
    effective_limit
    next_offset := if next_offset < compacted.length then some next_offset else none
    records := page }

/-- An exception of the interpreter. -/
def raising {α : Type} (x : Except PyError α) : Except LookupError α := x.mapError .raised

/-- `lookup_retained_evidence`. -/
def lookup_retained_evidence (results : Members) (request : LookupRequest) (offset limit max_rows : Int) :
    Except LookupError (Inventory × Option RecordPage) := do
  let completed ← raising (completed_queries py results)
  check_request request completed offset limit max_rows
  let retained ← raising (retained_rows py request results)
  let rows := matching_rows py request retained
  let found ← raising (inventory py request completed retained rows)
  if request.include_records then do
    let queries := mappings (completed.map (·.2))
    let compacted ← raising (compact_evidence_records py rows queries)
    return (found, some (record_page compacted offset.toNat (min limit max_rows).toNat))
  else return (found, none)

end Model

/-! ### What a lookup is to keep -/

section Spec

variable (py : Interpreter)

/-- The id of a record. -/
def evidence_id (record : Members) : String := py.text (value record "evidence_id")

/-- `duplicate_references` of a record. -/
def references (record : Members) : List Members :=
  match get record "duplicate_references" with
  | some (.array items) => mappings items
  | _ => []

/-- The ids a record mentions: its own, and those of its duplicates. -/
def mentions (record : Members) : List String :=
  evidence_id py record :: (references record).map (evidence_id py)

/-- Where a row is from: a known source, or nothing but the query that found it. -/
inductive SourceNamespace
  | known (source : SourcePair)
  | within (query_id : Json)
  deriving DecidableEq

/-- `selected_result` of a row. -/
def eventOf (row : Members) : Members :=
  match get row "selected_result" with
  | some (.object event) => event
  | _ => []

variable (table : String → List SourcePair)

/-- The source of a row. -/
def sourceOf (row : Members) : SourcePair :=
  result_source (eventOf row) (table (py.text (value row "query_id")))

/-- The source namespace of a row. -/
def sourceNamespace (row : Members) : SourceNamespace :=
  if sourceOf py table row ≠ unknownSource then .known (sourceOf py table row)
  else .within (value row "query_id").sorted

/-- Two rows represent the same: their results, times and source namespaces are identical. -/
structure SameRepresentation (a b : Members) : Prop where
  selected_result : (value a "selected_result").sorted = (value b "selected_result").sorted
  time : (value a "event_time_utc").sorted = (value b "event_time_utc").sorted
  source : sourceNamespace py table a = sourceNamespace py table b

/-- Two rows with the same results and times, one of the source `query`/`q` for some query `q`, the
other of unknown source and found by that query. -/
structure Collides (a b : Members) : Prop where
  identity : (native_identity (eventOf a)).isSome = true ∧
    native_identity (eventOf a) = native_identity (eventOf b)
  selected_result : (value a "selected_result").sorted = (value b "selected_result").sorted
  time : (value a "event_time_utc").sorted = (value b "event_time_utc").sorted
  source : ∃ q, sourceOf py table a = ("query", q) ∧ sourceOf py table b = unknownSource ∧
    value b "query_id" = .string q

end Spec

section Results

variable (py : Interpreter) (results : Members)

/-- The retained evidence of a hunt. -/
def evidenceRows : List Members :=
  match iterate ((get results "evidence").getD (.array [])) with
  | .ok evidence => mappings evidence
  | .error _ => []

/-- The completed queries a lookup compacts by. -/
def completedQueries : List Members :=
  match completed_queries py results with
  | .ok completed => mappings (completed.map (·.2))
  | .error _ => []

/-- The source pairs of the completed queries. -/
def sourceTable : String → List SourcePair :=
  match source_table py (completedQueries py results) with
  | .ok table => table
  | .error _ => fun _ => []

/-- The rows a request matches. -/
def matchingRows (request : LookupRequest) : List Members :=
  match retained_rows py request results with
  | .ok retained => matching_rows py request retained
  | .error _ => []

/-- The page at an offset, with the limits asked for there. -/
def ask (request : LookupRequest) (limits : Nat → Int × Int) (offset : Nat) : Option (Page Members) :=
  match lookup_retained_evidence py results request offset (limits offset).1 (limits offset).2 with
  | .ok (_, some page) => some ⟨page.records, page.next_offset⟩
  | _ => none

/-- Limits that are positive wherever a page is asked for. -/
def Positive (limits : Nat → Int × Int) : Prop := ∀ offset, 0 < (limits offset).1 ∧ 0 < (limits offset).2

/-- Paging through what a request matches loses nothing and repeats nothing. -/
structure Lossless (request : LookupRequest) : Prop where
  /-- Following `next_offset` from the start comes to an end. -/
  ends : ∀ limits, Positive limits → ∃ pages, Follows (ask py results request limits) 0 pages
  /-- The pages mention every matching row once. -/
  once : ∀ limits pages, Positive limits → Follows (ask py results request limits) 0 pages →
    ∀ row ∈ matchingRows py results request,
      ((pages.flatMap Page.items).flatMap (mentions py)).count (evidence_id py row) = 1
  /-- Only rows of one representation are merged. -/
  merged : ∀ limits pages, Positive limits → Follows (ask py results request limits) 0 pages →
    ∀ record ∈ pages.flatMap Page.items, ∀ a ∈ matchingRows py results request,
      ∀ b ∈ matchingRows py results request, evidence_id py a ∈ mentions py record →
        evidence_id py b ∈ mentions py record → a = b ∨ SameRepresentation py (sourceTable py results) a b
  /-- Compacting again changes nothing. -/
  idempotent : ∀ records compacted,
    compact_evidence_records py records (completedQueries py results) = .ok compacted →
      compact_evidence_records py compacted (completedQueries py results) = .ok compacted

end Results

/-! ### Merging -/

section Keys

variable {py : Interpreter} {table : String → List SourcePair} {a b row : Members}

/-- A key depends on four fields of the row. -/
theorem representation_key_congr
    (h : ∀ key ∈ ["selected_result", "evidence_kind", "query_id", "event_time_utc"], get a key = get b key) :
    representation_key py table a = representation_key py table b := by
  simp only [List.forall_mem_cons] at h
  obtain ⟨hresult, hkind, hquery, htime, -⟩ := h
  have hselected : selected_result a = selected_result b := by rw [selected_result, hresult]; rfl
  have hraw : is_raw_event a = is_raw_event b := by rw [is_raw_event, hkind]; rfl
  have hitem : item a "query_id" = item b "query_id" := by rw [item, hquery]; rfl
  have hvalue : value a "event_time_utc" = value b "event_time_utc" := by rw [value, htime]; rfl
  rw [representation_key, hselected, hraw, hitem, hvalue]
  rfl

/-- Adding a reference to a row leaves all else of it alone. -/
theorem add_reference_eq_ok {group merged : Members} (h : add_reference group row = .ok merged) :
    ∃ j, merged = set group "duplicate_references" j ∧
      (references merged = references group ++ [row.filter (·.1 ≠ "selected_result")]) := by
  rw [add_reference] at h
  split at h
  · rename_i hnone
    obtain rfl := Except.ok.inj h
    refine ⟨_, rfl, ?_⟩
    rw [references, get_set, if_pos rfl, references, hnone]
    rfl
  · rename_i items hitems
    obtain rfl := Except.ok.inj h
    refine ⟨_, rfl, ?_⟩
    rw [references, get_set, if_pos rfl, references, hitems]
    simp only [mappings, List.filterMap_append, List.filterMap_cons, List.filterMap_nil]
  · cases h

theorem representation_key_set (group : Members) (j : Json) :
    representation_key py table (set group "duplicate_references" j) = representation_key py table group :=
  representation_key_congr fun key hkey => by
    rw [get_set, if_neg (by rintro rfl; revert hkey; decide)]

/-- Merging keeps the key of the group. -/
theorem merges_nothing : Merges add_reference (representation_key py table) (fun _ => ([] : List String)) row := by
  intro b c h
  obtain ⟨j, rfl, -⟩ := add_reference_eq_ok h
  exact ⟨representation_key_set b j, rfl⟩

/-- Merging a row adds its id to what the group mentions. -/
theorem merges_add_reference (hraw : get row "duplicate_references" = none) :
    Merges add_reference (representation_key py table) (mentions py) row := by
  intro b c h
  have hne : "evidence_id" ≠ "selected_result" := by decide
  have horigin : evidence_id py (row.filter (·.1 ≠ "selected_result")) = evidence_id py row := by
    rw [evidence_id, value, get_filter (fun _ => decide_eq_true hne) row]
    rfl
  have hrow : mentions py row = [evidence_id py row] := by
    rw [mentions, references, hraw]
    rfl
  obtain ⟨j, rfl, hreferences⟩ := add_reference_eq_ok h
  have hid : evidence_id py (set b "duplicate_references" j) = evidence_id py b := by
    rw [evidence_id, value, get_set, if_neg (by decide)]
    rfl
  refine ⟨representation_key_set b j, ?_⟩
  rw [mentions, hid, hreferences, List.map_append, List.map_singleton, horigin, hrow]
  rfl

/-- A key, and the parts of the row it is made of. -/
theorem representation_key_eq_some {k : Json} :
    representation_key py table row = .ok (some k) ↔
      ∃ identity, native_identity (eventOf row) = some identity ∧ is_raw_event row = true ∧
        (get row "query_id").isSome = true ∧
        k = Json.sorted (.array [namespaceOf (sourceOf py table row) (value row "query_id"),
          .string identity, value row "event_time_utc", value row "selected_result"]) := by
  have hempty : native_identity [] = none := rfl
  rw [representation_key, selected_result, eventOf, sourceOf, eventOf, item, value, value, value]
  cases hresult : get row "selected_result" with
  | none => simp [hempty, pure, Except.pure]
  | some j =>
      cases j
      case object event =>
        cases hidentity : native_identity event with
        | none => simp [hidentity, pure, Except.pure]
        | some identity =>
            by_cases hraw : is_raw_event row = true
            · cases hquery : get row "query_id" with
              | none => simp [hidentity, hraw]
              | some query_id => simp [hidentity, hraw, pure, Except.pure, eq_comm]
            · simp [hidentity, hraw, pure, Except.pure]
      all_goals simp [hempty]

/-- A raw row with an identity has a key only if it names its query. -/
theorem query_id_of_key {k : Option Json} {identity : String} (h : representation_key py table row = .ok k)
    (hidentity : native_identity (eventOf row) = some identity) (hraw : is_raw_event row = true) :
    (get row "query_id").isSome = true := by
  by_contra hnone
  have hevent : selected_result row = .ok (eventOf row) := by
    rw [eventOf] at hidentity ⊢
    rw [selected_result]
    cases hresult : get row "selected_result" with
    | none => rfl
    | some j =>
        cases j
        case object event => rfl
        all_goals
          rw [hresult] at hidentity
          cases hidentity
  rw [representation_key, hevent, ok_bind, hidentity] at h
  simp only [if_pos hraw, item, Option.not_isSome_iff_eq_none.mp hnone] at h
  cases h

theorem sorted_eq_string {j : Json} {s : String} : j.sorted = .string s ↔ j = .string s := by
  cases j <;> simp [Json.sorted]

theorem query_source_ne_unknown (q : String) : ("query", q) ≠ unknownSource := fun h =>
  have hne : "query" ≠ "unknown" := by decide
  hne (congrArg Prod.fst h)

/-- A known source is written like the namespace of a query if it is the index `query` with the
query's id as sourcetype. -/
theorem known_eq_within {source : SourcePair} {query_id : Json} :
    Json.array [.string source.1, .string source.2] = .array [.string "query", query_id.sorted] ↔
      ∃ q, source = ("query", q) ∧ query_id = .string q := by
  simp only [Json.array.injEq, List.cons.injEq, Json.string.injEq, and_true, eq_comm (b := query_id.sorted),
    sorted_eq_string]
  constructor
  · rintro ⟨hindex, hquery⟩
    exact ⟨source.2, Prod.ext hindex rfl, hquery⟩
  · rintro ⟨q, rfl, rfl⟩
    exact ⟨rfl, rfl⟩

/-- Two namespaces are written alike if they are the same, or if one is a query's and the other
the source it is written like. -/
theorem namespaceOf_eq_iff :
    (namespaceOf (sourceOf py table a) (value a "query_id")).sorted =
        (namespaceOf (sourceOf py table b) (value b "query_id")).sorted ↔
      sourceNamespace py table a = sourceNamespace py table b ∨
        (∃ q, sourceOf py table a = ("query", q) ∧ sourceOf py table b = unknownSource ∧
          value b "query_id" = .string q) ∨
        ∃ q, sourceOf py table b = ("query", q) ∧ sourceOf py table a = unknownSource ∧
          value a "query_id" = .string q := by
  have hknown : ∀ source query_id, source ≠ unknownSource →
      (namespaceOf source query_id).sorted = .array [.string source.1, .string source.2] :=
    fun source query_id h => by rw [namespaceOf, if_pos h]; rfl
  have hwithin : ∀ query_id, (namespaceOf unknownSource query_id).sorted =
      .array [.string "query", query_id.sorted] := fun query_id => rfl
  rw [sourceNamespace, sourceNamespace]
  by_cases ha : sourceOf py table a = unknownSource
  · by_cases hb : sourceOf py table b = unknownSource
    · have hquery : ∀ q, unknownSource ≠ ("query", q) := fun q => (query_source_ne_unknown q).symm
      rw [ha, hb, hwithin, hwithin]
      simp [hquery]
    · rw [ha, hwithin, hknown _ _ hb, eq_comm, known_eq_within]
      simp [hb]
  · by_cases hb : sourceOf py table b = unknownSource
    · rw [hb, hwithin, hknown _ _ ha, known_eq_within]
      simp [ha]
    · rw [hknown _ _ ha, hknown _ _ hb]
      simp [ha, hb, Prod.ext_iff]

/-- Rows that share a key represent the same, or collide. -/
theorem same_or_collides {k : Json} (ha : representation_key py table a = .ok (some k))
    (hb : representation_key py table b = .ok (some k)) :
    SameRepresentation py table a b ∨ Collides py table a b ∨ Collides py table b a := by
  obtain ⟨identity, hida, -, -, hka⟩ := representation_key_eq_some.mp ha
  obtain ⟨identity', hidb, -, -, hkb⟩ := representation_key_eq_some.mp hb
  have hk := hka.symm.trans hkb
  simp only [Json.sorted, Json.sortedItems, Json.array.injEq, List.cons.injEq, and_true,
    Json.string.injEq] at hk
  obtain ⟨hnamespace, rfl, htime, hresult⟩ := hk
  have hidentity : (native_identity (eventOf a)).isSome = true ∧
      native_identity (eventOf a) = native_identity (eventOf b) := ⟨by rw [hida]; rfl, hida.trans hidb.symm⟩
  rcases namespaceOf_eq_iff.mp hnamespace with heq | hcollides | hcollides
  · exact .inl ⟨hresult, htime, heq⟩
  · exact .inr (.inl ⟨hidentity, hresult, htime, hcollides⟩)
  · exact .inr (.inr ⟨⟨hidentity.2 ▸ hidentity.1, hidentity.2.symm⟩, hresult.symm, htime.symm, hcollides⟩)

/-- Rows that collide have a key in common, and do not represent the same. -/
theorem Collides.shared {ka kb : Option Json} (h : Collides py table a b)
    (ha : representation_key py table a = .ok ka) (hb : representation_key py table b = .ok kb)
    (hrawa : is_raw_event a = true) (hrawb : is_raw_event b = true) :
    ∃ k, representation_key py table a = .ok (some k) ∧ representation_key py table b = .ok (some k) := by
  obtain ⟨identity, hida⟩ := Option.isSome_iff_exists.mp h.identity.1
  have hidb := h.identity.2 ▸ hida
  refine ⟨_, representation_key_eq_some.mpr ⟨identity, hida, hrawa, query_id_of_key ha hida hrawa, rfl⟩,
    representation_key_eq_some.mpr ⟨identity, hidb, hrawb, query_id_of_key hb hidb hrawb, ?_⟩⟩
  simp only [Json.sorted, Json.sortedItems, h.time, h.selected_result,
    namespaceOf_eq_iff.mpr (.inr (.inl h.source))]

theorem Collides.not_same (h : Collides py table a b) : ¬SameRepresentation py table a b := by
  obtain ⟨q, hknown, hunknown, -⟩ := h.source
  intro hsame
  have hsource := hsame.source
  rw [sourceNamespace, sourceNamespace, hknown, hunknown] at hsource
  rw [if_pos (query_source_ne_unknown q), if_neg (not_not.mpr rfl)] at hsource
  cases hsource

end Keys

/-! ### Pages -/

section Pages

variable {py : Interpreter} {results : Members} {request : LookupRequest}

theorem raising_eq_ok {α : Type} {x : Except PyError α} {a : α} : raising x = .ok a ↔ x = .ok a := by
  cases x <;> simp [raising, Except.mapError]

/-- The limits are checked apart from everything else. -/
theorem check_request_limits {completed : Members} {offset limit max_rows offset' limit' max_rows' : Int}
    (h : check_request request completed offset limit max_rows = .ok ()) (hoffset : 0 ≤ offset')
    (hlimit : 0 < limit') (hmax : 0 < max_rows') :
    check_request request completed offset' limit' max_rows' = .ok () := by
  rw [check_request] at h ⊢
  obtain ⟨⟨⟩, hqueries, h⟩ := bind_eq_ok.mp h
  obtain ⟨⟨⟩, -, h⟩ := bind_eq_ok.mp h
  have hlimits : (decide (0 ≤ offset') && decide (0 < min limit' max_rows')) = true := by
    rw [Bool.and_eq_true, decide_eq_true_eq, decide_eq_true_eq]
    exact ⟨hoffset, lt_min hlimit hmax⟩
  rw [hqueries, ok_bind, hlimits]
  exact h

/-- An accepted request with records is accepted with any offset and limits, and returns pages
of the same compacted rows. -/
theorem ask_eq_pageAt {offset limit max_rows : Int} {found : Inventory} {page : RecordPage}
    (h : lookup_retained_evidence py results request offset limit max_rows = .ok (found, some page)) :
    ∃ compacted, compact_evidence_records py (matchingRows py results request)
        (completedQueries py results) = .ok compacted ∧
      ∀ limits : Nat → Int × Int, Positive limits → ∀ n, ask py results request limits n =
        some (pageAt compacted n (min (limits n).1 (limits n).2).toNat) := by
  rw [lookup_retained_evidence] at h
  obtain ⟨completed, hcompleted, h⟩ := bind_eq_ok.mp h
  obtain ⟨⟨⟩, hcheck, h⟩ := bind_eq_ok.mp h
  obtain ⟨retained, hretained, h⟩ := bind_eq_ok.mp h
  obtain ⟨found', hfound, h⟩ := bind_eq_ok.mp h
  by_cases hrecords : request.include_records = true
  · rw [if_pos hrecords] at h
    obtain ⟨compacted, hcompacted, -⟩ := bind_eq_ok.mp h
    have hrows : matchingRows py results request = matching_rows py request retained := by
      rw [matchingRows, raising_eq_ok.mp hretained]
    have hqueries : completedQueries py results = mappings (completed.map (·.2)) := by
      rw [completedQueries, raising_eq_ok.mp hcompleted]
    refine ⟨compacted, ?_, fun limits hlimits n => ?_⟩
    · rw [hrows, hqueries]
      exact raising_eq_ok.mp hcompacted
    · have hn := check_request_limits hcheck (Int.natCast_nonneg n) (hlimits n).1 (hlimits n).2
      rw [ask]
      simp only [lookup_retained_evidence, hcompleted, hn, hretained, hfound, hcompacted, ok_bind,
        if_pos hrecords]
      rfl
  · rw [if_neg hrecords] at h
    cases h

/-- The matching rows are rows of the evidence, in another order. -/
theorem matchingRows_perm :
    ∃ rows : List Members, rows.Sublist (evidenceRows results) ∧
      (matchingRows py results request).Perm rows ∧ ∀ row ∈ rows, is_raw_event row = true := by
  rw [matchingRows, retained_rows, evidenceRows]
  cases iterate ((get results "evidence").getD (.array [])) with
  | error e => exact ⟨[], List.nil_sublist _, .refl _, by simp⟩
  | ok evidence =>
      have hstamped : ∀ rows : List Members, ∃ kept : List Members, kept.Sublist rows ∧
          ((rows.filterMap fun row =>
            match classify py request row with
            | .row stamp => some (stamp, row)
            | _ => none).map (·.2)) = kept ∧ ∀ row ∈ kept, is_raw_event row = true := by
        intro rows
        induction rows with
        | nil => exact ⟨[], .refl _, rfl, by simp⟩
        | cons row rows ih =>
            obtain ⟨kept, hsub, heq, hraw⟩ := ih
            rw [List.filterMap_cons]
            cases hclass : classify py request row
            case row stamp =>
              refine ⟨row :: kept, hsub.cons_cons row, by rw [← heq]; rfl, ?_⟩
              refine List.forall_mem_cons.mpr ⟨?_, hraw⟩
              by_contra hkind
              rw [classify, if_pos (by simpa using hkind)] at hclass
              cases hclass
            all_goals exact ⟨kept, hsub.cons row, heq, hraw⟩
      obtain ⟨kept, hsub, heq, hraw⟩ := hstamped ((mappings evidence).filter fun row =>
        py.text (value row "query_id") ∈ request.query_ids)
      refine ⟨kept, hsub.trans List.filter_sublist, ?_, hraw⟩
      rw [← heq]
      exact (List.perm_insertionSort _ _).map _

/-- What compaction returns are the items of slots. -/
theorem compact_eq_ok {records queries compacted : List Members}
    (h : compact_evidence_records py records queries = .ok compacted) :
    ∃ table slots, source_table py queries = .ok table ∧
      group add_reference (representation_key py table) records = .ok slots ∧
      compacted = slots.map Slot.item := by
  rw [compact_evidence_records] at h
  obtain ⟨table, htable, h⟩ := bind_eq_ok.mp h
  obtain ⟨slots, hslots, h⟩ := bind_eq_ok.mp h
  exact ⟨table, slots, htable, hslots, (Except.ok.inj h).symm⟩

/-- Compacting again changes nothing. -/
theorem compact_idempotent {records queries compacted : List Members}
    (h : compact_evidence_records py records queries = .ok compacted) :
    compact_evidence_records py compacted queries = .ok compacted := by
  obtain ⟨table, slots, htable, hslots, rfl⟩ := compact_eq_ok h
  have hgrouped := Grouped.of_group (fun _ _ => merges_nothing) hslots
  rw [compact_evidence_records, htable, ok_bind, hgrouped.regroup]
  rfl

/-- What paging through an accepted request rests on: the slots its matching rows are put into. -/
structure Paged (py : Interpreter) (results : Members) (request : LookupRequest)
    (slots : List (Slot Json Members)) : Prop where
  grouped : Grouped (representation_key py (sourceTable py results)) (mentions py)
    (matchingRows py results request) slots
  raw : ∀ row ∈ matchingRows py results request, is_raw_event row = true
  single : ∀ row ∈ matchingRows py results request, mentions py row = [evidence_id py row]
  nodup : ((matchingRows py results request).map (evidence_id py)).Nodup
  ends : ∀ limits, Positive limits → ∃ pages, Follows (ask py results request limits) 0 pages
  items : ∀ limits pages, Positive limits → Follows (ask py results request limits) 0 pages →
    pages.flatMap Page.items = slots.map Slot.item

theorem exists_paged {offset limit max_rows : Int} {found : Inventory} {page : RecordPage}
    (hids : ((evidenceRows results).map (evidence_id py)).Nodup)
    (hraw : ∀ row ∈ evidenceRows results, get row "duplicate_references" = none)
    (hrequest : lookup_retained_evidence py results request offset limit max_rows = .ok (found, some page)) :
    ∃ slots, Paged py results request slots := by
  obtain ⟨compacted, hcompacted, hpages⟩ := ask_eq_pageAt hrequest
  obtain ⟨rows, hsub, hperm, hkind⟩ : ∃ rows : List Members, rows.Sublist (evidenceRows results) ∧
      (matchingRows py results request).Perm rows ∧ ∀ row ∈ rows, is_raw_event row = true := matchingRows_perm
  obtain ⟨table, slots, htable, hslots, rfl⟩ := compact_eq_ok hcompacted
  obtain rfl : sourceTable py results = table := by rw [sourceTable, htable]
  have hraw : ∀ row ∈ matchingRows py results request, get row "duplicate_references" = none :=
    fun row hrow => hraw row (hsub.subset (hperm.mem_iff.mp hrow))
  refine ⟨slots, ?_, fun row hrow => hkind row (hperm.mem_iff.mp hrow), ?_, ?_, ?_, ?_⟩
  · exact Grouped.of_group (fun row hrow => merges_add_reference (hraw row hrow)) hslots
  · intro row hrow
    rw [mentions, references, hraw row hrow]
    rfl
  · exact (hperm.map _).nodup_iff.mpr (hids.sublist (hsub.map _))
  · intro limits hlimits
    refine exists_follows (fun n => ?_) (hpages limits hlimits) 0
    have := lt_min (hlimits n).1 (hlimits n).2
    omega
  · intro limits pages hlimits hfollows
    rw [hfollows.flatMap_items (hpages limits hlimits), List.drop_zero]

namespace Paged

variable {slots : List (Slot Json Members)}

/-- Rows that collide are merged without representing the same. -/
theorem not_collides (h : Paged py results request slots) (hlossless : Lossless py results request)
    {a b : Members} (ha : a ∈ matchingRows py results request) (hb : b ∈ matchingRows py results request) :
    ¬Collides py (sourceTable py results) a b := by
  intro hcollides
  have hne : a ≠ b := by
    rintro rfl
    obtain ⟨q, hknown, hunknown, -⟩ := hcollides.source
    exact query_source_ne_unknown q (hknown.symm.trans hunknown)
  obtain ⟨ka, hka⟩ := h.grouped.exists_key h.single h.nodup ha
  obtain ⟨kb, hkb⟩ := h.grouped.exists_key h.single h.nodup hb
  have hshared := hcollides.shared hka hkb (h.raw a ha) (h.raw b hb)
  obtain ⟨s, hs, hmema, hmemb⟩ := (h.grouped.share_iff h.single h.nodup ha hb hne).mpr hshared
  have hone : Positive fun _ => (1, 1) := fun _ => ⟨Int.one_pos, Int.one_pos⟩
  obtain ⟨pages, hfollows⟩ := h.ends _ hone
  have hrecord : s.item ∈ pages.flatMap Page.items := by
    rw [h.items _ _ hone hfollows]
    exact List.mem_map_of_mem hs
  rcases hlossless.merged _ _ hone hfollows s.item hrecord a ha b hb hmema hmemb with heq | hsame
  · exact hne heq
  · exact hcollides.not_same hsame

/-- Where no rows collide nothing is lost. -/
theorem lossless (h : Paged py results request slots)
    (hnone : ∀ a ∈ matchingRows py results request, ∀ b ∈ matchingRows py results request,
      ¬Collides py (sourceTable py results) a b) : Lossless py results request := by
  refine ⟨h.ends, ?_, ?_, fun _ _ => compact_idempotent⟩
  · intro limits pages hlimits hfollows row hrow
    rw [h.items _ _ hlimits hfollows, List.flatMap_map]
    exact h.grouped.count_mentions h.single h.nodup hrow
  · intro limits pages hlimits hfollows record hrecord a ha b hb hmema hmemb
    rw [h.items _ _ hlimits hfollows] at hrecord
    obtain ⟨s, hs, rfl⟩ := List.mem_map.mp hrecord
    by_cases hne : a = b
    · exact .inl hne
    · right
      obtain ⟨k, hka, hkb⟩ :=
        (h.grouped.share_iff h.single h.nodup ha hb hne).mp ⟨s, hs, hmema, hmemb⟩
      rcases same_or_collides hka hkb with hsame | hcollides | hcollides
      · exact hsame
      · exact absurd hcollides (hnone a ha b hb)
      · exact absurd hcollides (hnone b hb a ha)

end Paged

/-- **Lossless paging.** Of an accepted request over evidence with different ids, the pages lose and
repeat nothing and merge only what represents the same, exactly if no two matching rows collide. -/
theorem paging_lossless_iff {offset limit max_rows : Int} {found : Inventory} {page : RecordPage}
    (hids : ((evidenceRows results).map (evidence_id py)).Nodup)
    (hraw : ∀ row ∈ evidenceRows results, get row "duplicate_references" = none)
    (hrequest : lookup_retained_evidence py results request offset limit max_rows = .ok (found, some page)) :
    Lossless py results request ↔
      ∀ a ∈ matchingRows py results request, ∀ b ∈ matchingRows py results request,
        ¬Collides py (sourceTable py results) a b := by
  obtain ⟨slots, hpaged⟩ := exists_paged hids hraw hrequest
  exact ⟨fun hlossless a ha b hb => hpaged.not_collides hlossless ha hb, hpaged.lossless⟩

end Pages

/-! ### Two queries that find the same event -/

/-- An interpreter that reads the one time the samples name. -/
def sampleInterpreter : Interpreter where
  db := Spl.foldedLetters
  str := fun _ => "None"
  event_time := fun stamp => if stamp = "2026-01-01T10:00:00Z" then some 1767261600000000 else none

/-- A completed query. -/
def sampleQuery (query_id spl : String) : Json :=
  .object [("query_id", .string query_id), ("status", .string "completed"), ("spl", .string spl)]

/-- A retained row of a query. -/
def sampleRow (query_id evidence_id : String) : Json :=
  .object [("query_id", .string query_id), ("evidence_id", .string evidence_id),
    ("evidence_kind", .string "raw_event"), ("event_time_utc", .string "2026-01-01T10:00:00Z"),
    ("selected_result", .object [("_cd", .string "12:34"), ("host", .string "host-1")])]

/-- Two queries, the first of them with this text, and one row of each. -/
def sampleResults (first : String) : Members :=
  [("queries", .array [sampleQuery "q-1" first, sampleQuery "q-2" "search index=main (sourcetype=a OR sourcetype=b)"]),
    ("evidence", .array [sampleRow "q-1" "e-1", sampleRow "q-2" "e-2"])]

/-- Everything both queries have found. -/
def sampleRequest : LookupRequest where
  query_ids := ["q-1", "q-2"]
  filters := []
  earliest_utc := none
  latest_utc := none
  distinct_fields := ["host"]
  include_records := true

theorem sample_request_accepted (first : String)
    (h : (lookup_retained_evidence sampleInterpreter (sampleResults first) sampleRequest 0 500 500).toOption.any
      (·.2.isSome) = true) :
    ∃ found page, lookup_retained_evidence sampleInterpreter (sampleResults first) sampleRequest 0 500 500 =
      .ok (found, some page) := by
  obtain ⟨⟨found, page⟩, hfound, hpage⟩ := (Option.any_eq_true ..).mp h
  obtain ⟨page, rfl⟩ := Option.isSome_iff_exists.mp hpage
  exact ⟨found, page, toOption_eq_some.mp hfound⟩

theorem two_sources_lossless :
    Lossless sampleInterpreter (sampleResults "search index=main sourcetype=endpoint") sampleRequest := by
  obtain ⟨found, page, hrequest⟩ :=
    sample_request_accepted "search index=main sourcetype=endpoint" (by decide +kernel)
  refine (paging_lossless_iff (by decide +kernel) (by decide +kernel) hrequest).mpr fun a ha b _ hcollides => ?_
  have hsources : ∀ row ∈ matchingRows sampleInterpreter
      (sampleResults "search index=main sourcetype=endpoint") sampleRequest,
      (sourceOf sampleInterpreter (sourceTable sampleInterpreter
        (sampleResults "search index=main sourcetype=endpoint")) row).1 ≠ "query" := by
    decide +kernel
  obtain ⟨q, hknown, -⟩ := hcollides.source
  exact hsources a ha (congrArg Prod.fst hknown)

/-- A row of the index `query` and the sourcetype `q-2` is merged with a row of unknown source
that the query `q-2` found. -/
theorem query_index_merged :
    ∃ found page, lookup_retained_evidence sampleInterpreter (sampleResults "search index=query sourcetype=q-2")
        sampleRequest 0 500 500 = .ok (found, some page) ∧
      ¬Lossless sampleInterpreter (sampleResults "search index=query sourcetype=q-2") sampleRequest := by
  obtain ⟨found, page, hrequest⟩ :=
    sample_request_accepted "search index=query sourcetype=q-2" (by decide +kernel)
  obtain ⟨slots, hpaged⟩ := exists_paged (by decide +kernel) (by decide +kernel) hrequest
  refine ⟨found, page, hrequest, fun hlossless => ?_⟩
  have hpair : ∃ a ∈ matchingRows sampleInterpreter (sampleResults "search index=query sourcetype=q-2") sampleRequest,
      ∃ b ∈ matchingRows sampleInterpreter (sampleResults "search index=query sourcetype=q-2") sampleRequest,
      ((native_identity (eventOf a)).isSome = true ∧
        native_identity (eventOf a) = native_identity (eventOf b)) ∧
      (value a "selected_result").sorted = (value b "selected_result").sorted ∧
      (value a "event_time_utc").sorted = (value b "event_time_utc").sorted ∧
      sourceOf sampleInterpreter (sourceTable sampleInterpreter
        (sampleResults "search index=query sourcetype=q-2")) a = ("query", "q-2") ∧
      sourceOf sampleInterpreter (sourceTable sampleInterpreter
        (sampleResults "search index=query sourcetype=q-2")) b = unknownSource ∧
      value b "query_id" = .string "q-2" := by
    decide +kernel
  obtain ⟨a, ha, b, hb, hidentity, hresult, htime, hsource⟩ := hpair
  exact hpaged.not_collides hlossless ha hb ⟨hidentity, hresult, htime, "q-2", hsource⟩

end EvidenceLookup

end ThreatHunting
