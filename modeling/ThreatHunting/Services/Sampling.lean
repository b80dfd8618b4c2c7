import ThreatHunting.Lib.RoundRobin
import ThreatHunting.Services.Timeline

/-!
# ThreatHunting.Services.Sampling

`_spread_evidence_in_time` and `_balanced_evidence_sample` of `services/investigation.py`: the
records that the model gets to see when there are more than it can be shown. The queries take
turns, within a query its sources do, and the records of known time come from both ends of
the time first.
-/

namespace ThreatHunting

namespace Sampling

open Fallible RoundRobin
open EvidenceLookup
open ModelOutput (Members PyError get truthy)
open Spl (Time)

variable (py : Interpreter)

/-! ### Spreading in time -/

/-- The middles of intervals, those of the earlier intervals first, then of the halves. -/
def middles : Nat → List (Nat × Nat) → List Nat
  | 0, _ | _, [] => []
  | fuel + 1, (left, right) :: intervals =>
      if right ≤ left then middles fuel intervals
      else
        let middle := (left + right) / 2
        middle :: middles fuel (intervals ++ [(left, middle), (middle + 1, right)])

/-- The positions of `count` ordered times: both ends, then ever smaller steps in between. -/
def spreadPositions (count : Nat) : List Nat :=
  0 :: (count - 1) :: middles (2 * count) [(1, count - 1)]

/-- `_spread_evidence_in_time`. -/
def spread_evidence_in_time (rows : List Members) : List Members :=
  let timed := rows.filterMap fun row => (raw_event_time py row).map (·, row)
  let unknown := rows.filter fun row => (raw_event_time py row).isNone
  if timed.length < 2 then rows
  else
    -- a stable sort: rows of one time stay in their order
    let timed := timed.insertionSort fun a b : Time × Members => a.1 ≤ b.1
    let ordered := (spreadPositions timed.length).filterMap fun position => (timed[position]?).map (·.2)
    interleave [ordered, unknown]

/-! ### Rows by query -/

/-- `str(row.get("evidence_id"))`. -/
def evidence_key (row : Members) : String := py.text (value row "evidence_id")

/-- `str(row.get("query_id"))`. -/
def query_key (row : Members) : String := py.text (value row "query_id")

/-- Does an item name a query, and one of those asked for? -/
def allowed (query_ids : Option (List String)) (item : Members) : Bool :=
  value item "query_id" ≠ .null && query_ids.all (·.contains (query_key py item))

/-- The dictionaries of a value, if it is a list. -/
def mappingsOf : Json → List Members
  | .array items => mappings items
  | _ => []

/-- The completed queries. -/
def completed (query_ids : Option (List String)) (queries : Json) : List Members :=
  (mappingsOf queries).filter fun query =>
    get query "status" = some (.string "completed") && allowed py query_ids query

/-- The records of the evidence that there are to sample. -/
def records (query_ids : Option (List String)) (evidence : Json) : List Members :=
  (mappingsOf evidence).filter (allowed py query_ids)

/-- `query_order`: the completed queries, then those that only records name. -/
def query_order (query_ids : Option (List String)) (evidence queries : Json) : List String :=
  ((completed py query_ids queries).map (query_key py) ++ (records py query_ids evidence).map (query_key py)).eraseDups

/-- `query_records.get(query_id, {})`. -/
def query_record (query_ids : Option (List String)) (queries : Json) (query_id : String) : Members :=
  (((completed py query_ids queries).filter (query_key py · = query_id)).getLast?).getD []

/-- `result_source(row.get("selected_result", {}), pairs)`, for more than one pair. -/
def row_source (pairs : List SourcePair) (row : Members) : Except PyError SourcePair :=
  match (get row "selected_result").getD (.object []) with
  | .object event => .ok (result_source event pairs)
  -- neither field is in a list or text without these words, so that no pair is excluded
  | .array items =>
      if .string "index" ∈ items ∨ .string "sourcetype" ∈ items then
        .error (.type_error "list indices must be integers")
      else .ok unknownSource
  | .string s =>
      if "index".toList <:+: s.toList ∨ "sourcetype".toList <:+: s.toList then
        .error (.type_error "string indices must be integers")
      else .ok unknownSource
  | _ => .error (.type_error "object is not a container")

/-- `rows.sort(…)`: the preferred rows first. -/
def prefer (preferred : List String) (rows : List Members) : List Members :=
  if preferred.isEmpty then rows
  else
    let first := fun row => preferred.contains (evidence_key py row)
    rows.filter first ++ rows.filter fun row => !first row

/-- The records of one query, in the order in which they are sampled. -/
def arrange (preferred : List String) (query : Members) (rows : List Members) : Except PyError (List Members) := do
  let rows := prefer py preferred (spread_evidence_in_time py rows)
  let pairs := query_pairs py query
  if 1 < pairs.length then
    let labelled ← rows.mapM fun row => do return (← row_source pairs row, row)
    return (interleave (bare (byTag Prod.fst labelled))).map (·.2)
  else return rows

/-- `rows_by_query`. -/
def rows_by_query (query_ids : Option (List String)) (preferred : List String) (evidence queries : Json) :
    Except PyError (List (String × List Members)) :=
  (query_order py query_ids evidence queries).mapM fun query_id => do
    let rows ← arrange py preferred (query_record py query_ids queries query_id)
      ((records py query_ids evidence).filter (query_key py · = query_id))
    return (query_id, rows)

/-! ### Coverage -/

/-- What the model is told about the records of one query. -/
structure QueryCoverage where
  query_id : String
  result_count : Json
  retained_evidence_count : Nat
  supplied_evidence_count : Nat
  omitted_evidence_count : Nat
  sample_omitted : Bool
  query_truncated : Json
  available_result_count : Json
  retrieval_stop_reason : Json
  coverage_status : String
  observed_time_bounds : TimeBounds
  coverage_note : String

/-- An `int` of Python, which `True` and `False` are as well. -/
def asInt : Json → Option Int
  | .int n => some n
  | .bool b => some (if b then 1 else 0)
  | _ => none

/-- `coverage_status`. -/
def coverage_status (query : Members) (retained omitted : Nat) : String :=
  let result_count := asInt (value query "result_count")
  if truthy (value query "truncated") && retained = 0 then "retrieval_incomplete"
  else if result_count = some 0 && retained = 0 then "no_results"
  else if result_count.any ((retained : Int) < ·) then "retention_gap"
  else if omitted ≠ 0 then "sampled"
  else "complete"

/-- `coverage_note`. -/
def coverage_note (query : Members) (retained omitted : Nat) : String :=
  let status := coverage_status query retained omitted
  if omitted ≠ 0 then
    "Only a bounded sample was supplied; omitted retained records may contain relevant activity."
  else if status = "retrieval_incomplete" then
    "Retrieval stopped before evidence could be retained; this does not establish zero matching events."
  else if status = "no_results" then "The query returned no results; no evidence was supplied."
  else if retained = 0 && (asInt (value query "result_count")).any (· ≠ 0) then
    "No retained evidence was supplied for this query."
  else "The supplied evidence covers all retained records for this query."

/-- The entry of one query in the coverage. -/
def coverageOf (query : Members) (sampled : List Members) (group : String × List Members) : QueryCoverage :=
  let retained := group.2.length
  let supplied := sampled.countP fun row => value row "query_id" ≠ .null && query_key py row = group.1
  let omitted := retained - supplied
  { query_id := group.1
    result_count := if (asInt (value query "result_count")).isSome then value query "result_count" else .null
    retained_evidence_count := retained
    supplied_evidence_count := supplied
    omitted_evidence_count := omitted
    sample_omitted := omitted ≠ 0
    query_truncated := value query "truncated"
    available_result_count := value query "available_result_count"
    retrieval_stop_reason := value query "retrieval_stop_reason"
    coverage_status := coverage_status query retained omitted
    observed_time_bounds := evidence_time_bounds py group.2
    coverage_note := coverage_note query retained omitted }

/-! ### The sample -/

/-- The rounds: one for each group that is requested, and one for everything. -/
def asks (requested : List (List String)) : List (Members → Bool) :=
  requested.map (fun group row => group.contains (evidence_key py row)) ++ [fun _ => true]

/-- `_balanced_evidence_sample`. -/
def balanced_evidence_sample (evidence queries : Json) (query_ids : Option (List String)) (limit : Int)
    (preferred : List String) (requested : List (List String)) :
    Except PyError (List Members × List QueryCoverage) := do
  if limit ≤ 0 then throw (.value_error "evidence sample limit must be positive")
  let rows_by_query ← rows_by_query py query_ids preferred evidence queries
  let sampled := rounds (evidence_key py) limit.toNat (bare rows_by_query) (asks py requested)
  let coverage := rows_by_query.map fun group => coverageOf py (query_record py query_ids queries group.1) sampled group
  return (sampled, coverage)

/-! ### Spreading keeps every row -/

section

variable {py}

/-- The positions of an interval. -/
def positions (interval : Nat × Nat) : List Nat := List.range' interval.1 (interval.2 - interval.1)

/-- How many intervals come of some. -/
def work (intervals : List (Nat × Nat)) : Nat :=
  (intervals.map fun interval => 2 * (interval.2 - interval.1) + 1).sum

/-- An interval is its middle and its halves. -/
theorem positions_halves {left right : Nat} (h : left < right) :
    positions (left, right) =
      positions (left, (left + right) / 2) ++ (left + right) / 2 :: positions ((left + right) / 2 + 1, right) := by
  have hleft : left ≤ (left + right) / 2 := by omega
  have hright : (left + right) / 2 < right := by omega
  have hsplit := @List.range'_append_1 left ((left + right) / 2 - left) (right - (left + right) / 2)
  rw [Nat.add_sub_cancel' hleft, show right - (left + right) / 2 = right - ((left + right) / 2 + 1) + 1 by omega,
    List.range'_succ] at hsplit
  rw [positions, positions, positions, hsplit]
  congr 1
  omega

/-- The middles of intervals are their positions, once each, by induction on the intervals to come. -/
theorem middles_perm (fuel : Nat) (intervals : List (Nat × Nat)) (h : work intervals ≤ fuel) :
    (middles fuel intervals).Perm (intervals.flatMap positions) := by
  induction fuel generalizing intervals with
  | zero =>
      cases intervals with
      | nil => exact .refl _
      | cons interval intervals => simp [work] at h
  | succ fuel ih =>
      cases intervals with
      | nil => exact .refl _
      | cons interval intervals =>
          obtain ⟨left, right⟩ := interval
          rw [middles]
          split
          next hempty =>
            have hnone : positions (left, right) = [] := by simp [positions, Nat.sub_eq_zero_of_le hempty]
            rw [List.flatMap_cons, hnone]
            exact ih intervals (by simp [work] at h ⊢; omega)
          next hsome =>
            have hlt := Nat.not_le.mp hsome
            have hwork : work (intervals ++ [(left, (left + right) / 2), ((left + right) / 2 + 1, right)]) ≤ fuel := by
              simp [work] at h ⊢
              omega
            have hmiddle := (ih _ hwork).cons ((left + right) / 2)
            rw [List.flatMap_append] at hmiddle
            rw [List.flatMap_cons, positions_halves hlt]
            refine hmiddle.trans ?_
            simp only [List.flatMap_cons, List.flatMap_nil, List.append_nil]
            exact (List.perm_append_comm.cons _).trans (by simpa using List.perm_middle.symm.append_right _)

theorem spreadPositions_perm {count : Nat} (h : 2 ≤ count) : (spreadPositions count).Perm (List.range count) := by
  obtain ⟨n, rfl⟩ := Nat.exists_eq_add_of_le' h
  have hmiddles := middles_perm (2 * (n + 2)) [(1, n + 1)] (by simp [work])
  have hrange : List.range (n + 2) = 0 :: (List.range' 1 n ++ [n + 1]) := by
    rw [List.range_eq_range', List.range'_succ, List.range'_concat, Nat.one_mul, Nat.zero_add, Nat.add_comm 1 n]
  rw [spreadPositions, hrange]
  refine .cons 0 (.trans (.cons _ hmiddles) ?_)
  simpa [positions] using (List.perm_append_singleton _ _).symm

theorem filterMap_getElem?_range {α : Type} (as : List α) : (List.range as.length).filterMap (as[·]?) = as := by
  induction as with
  | nil => rfl
  | cons a as ih =>
      rw [List.length_cons, List.range_succ_eq_map, List.filterMap_cons, List.filterMap_map]
      exact congrArg (a :: ·) ih

/-- What is spread in time are the same rows. -/
theorem spread_perm (rows : List Members) : (spread_evidence_in_time py rows).Perm rows := by
  rw [spread_evidence_in_time]
  dsimp only
  split
  next => exact .refl _
  next hmany =>
    set timed := rows.filterMap fun row => (raw_event_time py row).map (·, row)
    set sorted := timed.insertionSort fun a b : Time × Members => a.1 ≤ b.1 with hsorted
    have hlength : sorted.length = timed.length := List.length_insertionSort _ _
    have hordered : ((spreadPositions sorted.length).filterMap fun position => (sorted[position]?).map (·.2)).Perm
        (timed.map (·.2)) := by
      refine ((spreadPositions_perm (by omega)).filterMap _).trans ?_
      rw [← List.map_filterMap, filterMap_getElem?_range]
      exact (List.perm_insertionSort _ _).map _
    have htimed : timed.map (·.2) = rows.filter fun row => !(raw_event_time py row).isNone := by
      rw [List.map_filterMap, ← List.filterMap_eq_filter]
      refine List.filterMap_congr fun row _ => ?_
      cases h : raw_event_time py row <;> simp [Option.guard, h]
    refine (interleave_perm _).trans ?_
    rw [List.flatten_cons, List.flatten_singleton]
    refine (hordered.append_right _).trans ?_
    rw [htimed]
    exact List.perm_append_comm.trans (List.filter_append_perm _ rows)

/-- The loop as it runs: an interval is taken from the front, and its halves go to the back, until
none is left. -/
inductive Bisected : List (Nat × Nat) → List Nat → Prop
  | done : Bisected [] []
  | skip {left right intervals emitted} : right ≤ left → Bisected intervals emitted →
      Bisected ((left, right) :: intervals) emitted
  | halve {left right intervals emitted} : left < right →
      Bisected (intervals ++ [(left, (left + right) / 2), ((left + right) / 2 + 1, right)]) emitted →
      Bisected ((left, right) :: intervals) ((left + right) / 2 :: emitted)

/-- The loop ends within the number of intervals that come of those it starts with. -/
theorem bisected_middles (fuel : Nat) (intervals : List (Nat × Nat)) (h : work intervals ≤ fuel) :
    Bisected intervals (middles fuel intervals) := by
  induction fuel generalizing intervals with
  | zero =>
      cases intervals with
      | nil => exact .done
      | cons interval intervals => simp [work] at h
  | succ fuel ih =>
      cases intervals with
      | nil => exact .done
      | cons interval intervals =>
          obtain ⟨left, right⟩ := interval
          rw [middles]
          split
          next hempty => exact .skip hempty (ih intervals (by simp [work] at h ⊢; omega))
          next hsome =>
            refine .halve (Nat.not_le.mp hsome) (ih _ ?_)
            simp [work] at h ⊢
            omega

section Ends

variable {α τ : Type} [LinearOrder τ] {key : α → τ}

/-- An item that comes before all of its key, and has the least key. -/
def Earliest (key : α → τ) (first : α) (items : List α) : Prop :=
  ∃ before after, items = before ++ first :: after ∧ (∀ a ∈ before, key first < key a) ∧
    ∀ a ∈ after, key first ≤ key a

/-- An item that comes after all of its key, and has the greatest key. -/
def Latest (key : α → τ) (last : α) (items : List α) : Prop :=
  ∃ before after, items = before ++ last :: after ∧ (∀ a ∈ before, key a ≤ key last) ∧
    ∀ a ∈ after, key a < key last

theorem Earliest.le {first : α} {items : List α} (h : Earliest key first items) : ∀ a ∈ items, key first ≤ key a := by
  obtain ⟨before, after, rfl, hbefore, hafter⟩ := h
  intro a ha
  rcases List.mem_append.mp ha with ha | ha
  · exact (hbefore a ha).le
  · rcases List.mem_cons.mp ha with rfl | ha
    · exact le_refl _
    · exact hafter a ha

theorem Latest.le {last : α} {items : List α} (h : Latest key last items) : ∀ a ∈ items, key a ≤ key last := by
  obtain ⟨before, after, rfl, hbefore, hafter⟩ := h
  intro a ha
  rcases List.mem_append.mp ha with ha | ha
  · exact hbefore a ha
  · rcases List.mem_cons.mp ha with rfl | ha
    · exact le_refl _
    · exact (hafter a ha).le

/-- A sorted list begins with the earliest item. -/
theorem exists_earliest (items : List α) (h : items ≠ []) :
    ∃ first, (items.insertionSort fun a b => key a ≤ key b).head? = some first ∧ Earliest key first items := by
  induction items with
  | nil => exact absurd rfl h
  | cons a items ih =>
      rw [List.insertionSort_cons]
      by_cases hitems : items = []
      · subst hitems
        exact ⟨a, rfl, [], [], rfl, nofun, nofun⟩
      · obtain ⟨first, hhead, hfirst⟩ := ih hitems
        obtain ⟨rest, hrest⟩ := List.head?_eq_some_iff.mp hhead
        rw [hrest, List.orderedInsert_cons]
        by_cases hle : key a ≤ key first
        · rw [if_pos hle]
          exact ⟨a, rfl, [], items, rfl, nofun, fun b hb => hle.trans (hfirst.le b hb)⟩
        · obtain ⟨before, after, hsplit, hbefore, hafter⟩ := hfirst
          rw [if_neg hle]
          exact ⟨first, rfl, a :: before, after, by rw [hsplit, List.cons_append],
            List.forall_mem_cons.mpr ⟨not_le.mp hle, hbefore⟩, hafter⟩

theorem getLast?_orderedInsert {a last : α} {items : List α} (hlast : items.getLast? = some last)
    (hle : key a ≤ key last) : (items.orderedInsert (fun a b => key a ≤ key b) a).getLast? = some last := by
  induction items with
  | nil => cases hlast
  | cons b items ih =>
      rw [List.orderedInsert_cons]
      split
      next => rwa [List.getLast?_cons_cons]
      next hlt =>
        cases items with
        | nil =>
            obtain rfl := Option.some.inj hlast
            exact absurd hle hlt
        | cons c items =>
            rw [List.getLast?_cons_cons] at hlast
            rw [List.getLast?_cons, ih hlast, Option.getD_some]

theorem orderedInsert_of_lt {a : α} {items : List α} (h : ∀ b ∈ items, key b < key a) :
    items.orderedInsert (fun a b => key a ≤ key b) a = items ++ [a] := by
  induction items with
  | nil => rfl
  | cons b items ih =>
      obtain ⟨hb, hitems⟩ := List.forall_mem_cons.mp h
      rw [List.orderedInsert_cons, if_neg (not_le.mpr hb), ih hitems, List.cons_append]

/-- A sorted list ends with the latest item. -/
theorem exists_latest (items : List α) (h : items ≠ []) :
    ∃ last, (items.insertionSort fun a b => key a ≤ key b).getLast? = some last ∧ Latest key last items := by
  induction items with
  | nil => exact absurd rfl h
  | cons a items ih =>
      rw [List.insertionSort_cons]
      by_cases hitems : items = []
      · subst hitems
        exact ⟨a, rfl, [], [], rfl, nofun, nofun⟩
      · obtain ⟨last, hlast, hlatest⟩ := ih hitems
        by_cases hle : key a ≤ key last
        · refine ⟨last, getLast?_orderedInsert hlast hle, ?_⟩
          obtain ⟨before, after, hsplit, hbefore, hafter⟩ := hlatest
          exact ⟨a :: before, after, by rw [hsplit, List.cons_append],
            List.forall_mem_cons.mpr ⟨hle, hbefore⟩, hafter⟩
        · have hall : ∀ b ∈ items, key b < key a := fun b hb => (hlatest.le b hb).trans_lt (not_le.mp hle)
          refine ⟨a, ?_, [], items, rfl, nofun, hall⟩
          rw [orderedInsert_of_lt fun b hb => hall b ((List.mem_insertionSort _).mp hb), List.getLast?_concat]

end Ends

/-- Has a row a time? -/
def timed (py : Interpreter) (row : Members) : Bool := (raw_event_time py row).isSome

/-- The rows of known time, with it. -/
def stamped (py : Interpreter) (rows : List Members) : List (Time × Members) :=
  rows.filterMap fun row => (raw_event_time py row).map (·, row)

theorem stamped_time {rows : List Members} {item : Time × Members} (h : item ∈ stamped py rows) :
    raw_event_time py item.2 = some item.1 := by
  obtain ⟨row, -, hrow⟩ := List.mem_filterMap.mp h
  obtain ⟨time, htime, rfl⟩ := Option.map_eq_some_iff.mp hrow
  exact htime

theorem stamped_rows (rows : List Members) : (stamped py rows).map (·.2) = rows.filter (timed py) := by
  rw [stamped, List.map_filterMap, ← List.filterMap_eq_filter]
  refine List.filterMap_congr fun row _ => ?_
  cases h : raw_event_time py row <;> simp [Option.guard, timed, h]

/-- The rows of known time in what is spread are the ordered ones, in their order. -/
theorem filter_spread {ordered unknown : List Members} (hordered : ∀ row ∈ ordered, timed py row = true)
    (hunknown : ∀ row ∈ unknown, timed py row = false) :
    (interleave [ordered, unknown]).filter (timed py) = ordered := by
  have htagged : Tagged (timed py) [(true, ordered), (false, unknown)] := by
    refine ⟨by simp, ?_⟩
    simp only [List.mem_cons, List.not_mem_nil, or_false, forall_eq_or_imp, forall_eq]
    exact ⟨hordered, hunknown⟩
  simpa [bare] using htagged.filter_interleave List.mem_cons_self

/-- What spreading in time promises. -/
structure SpreadInTime (py : Interpreter) (rows spread : List Members) : Prop where
  once : spread.Perm rows
  few : (stamped py rows).length < 2 → spread = rows
  ends : 2 ≤ (stamped py rows).length → ∃ first last rest, spread.filter (timed py) = first.2 :: last.2 :: rest ∧
    Earliest Prod.fst first (stamped py rows) ∧ Latest Prod.fst last (stamped py rows)

/-- **Spreading.** The loop ends, and the rows are those of the list, once each, with the earliest and
the latest of known time first. -/
theorem spread_in_time (py : Interpreter) (rows : List Members) :
    Bisected [(1, (stamped py rows).length - 1)]
        (middles (2 * (stamped py rows).length) [(1, (stamped py rows).length - 1)]) ∧
      SpreadInTime py rows (spread_evidence_in_time py rows) := by
  refine ⟨?_, spread_perm rows, fun hfew => if_pos hfew, fun hmany => ?_⟩
  · cases h : (stamped py rows).length with
    | zero => exact .skip (Nat.zero_le 1) .done
    | succ n => exact bisected_middles _ _ (by simp [work])
  · have hne : stamped py rows ≠ [] := List.ne_nil_of_length_pos (Nat.zero_lt_of_lt hmany)
    obtain ⟨first, hfirst, hearliest⟩ := @exists_earliest _ _ _ Prod.fst (stamped py rows) hne
    obtain ⟨last, hlast, hlatest⟩ := @exists_latest _ _ _ Prod.fst (stamped py rows) hne
    set sorted := (stamped py rows).insertionSort fun a b : Time × Members => a.1 ≤ b.1 with hsorted
    have hlength : sorted.length = (stamped py rows).length := List.length_insertionSort _ _
    have hspread : spread_evidence_in_time py rows =
        interleave [(spreadPositions sorted.length).filterMap fun position => (sorted[position]?).map (·.2),
          rows.filter fun row => (raw_event_time py row).isNone] := if_neg (Nat.not_lt.mpr hmany)
    have hordered : ∀ row ∈ (spreadPositions sorted.length).filterMap fun position => (sorted[position]?).map (·.2),
        timed py row = true := by
      intro row hrow
      obtain ⟨position, -, hposition⟩ := List.mem_filterMap.mp hrow
      obtain ⟨item, hitem, rfl⟩ := Option.map_eq_some_iff.mp hposition
      have hmem : item ∈ stamped py rows := (List.mem_insertionSort _).mp (List.mem_of_getElem? hitem)
      rw [timed, stamped_time hmem]
      rfl
    have hunknown : ∀ row ∈ rows.filter fun row => (raw_event_time py row).isNone, timed py row = false := by
      intro row hrow
      rw [timed, Option.isSome_eq_false_iff]
      exact (List.mem_filter.mp hrow).2
    have hzero : sorted[0]? = some first := by rw [← List.head?_eq_getElem?, hfirst]
    have hend : sorted[sorted.length - 1]? = some last := by rw [← List.getLast?_eq_getElem?, hlast]
    rw [hspread, filter_spread hordered hunknown, spreadPositions, List.filterMap_cons, hzero, List.filterMap_cons, hend]
    exact ⟨first, last, _, rfl, hearliest, hlatest⟩

end

/-! ### What is sampled -/

section

variable {py} {query_ids : Option (List String)} {preferred : List String} {evidence queries : Json}
  {query : Members} {rows arranged : List Members} {groups : List (String × List Members)}

/-- The rows that a list of pairs has a source for, with it. -/
theorem label_eq_ok {pairs : List SourcePair} {labelled : List (SourcePair × Members)}
    (h : (rows.mapM fun row => do return (← row_source pairs row, row)) = .ok labelled) :
    labelled.map (·.2) = rows ∧ ∀ l ∈ labelled, row_source pairs l.2 = .ok l.1 := by
  have hall := forall₂_of_mapM h
  clear h
  induction hall with
  | nil => simp
  | @cons row l rows labelled hl _ ih =>
      obtain ⟨source, hsource, hl⟩ := bind_eq_ok.mp hl
      obtain rfl := Except.ok.inj hl
      exact ⟨congrArg (row :: ·) ih.1, List.forall_mem_cons.mpr ⟨hsource, ih.2⟩⟩

/-- Preferred rows first are the same rows. -/
theorem prefer_perm (preferred : List String) (rows : List Members) : (prefer py preferred rows).Perm rows := by
  rw [prefer]
  split
  next => exact .refl _
  next => exact List.filter_append_perm _ rows

/-- Rows are arranged as they are, or by source. -/
theorem arrange_eq_ok (h : arrange py preferred query rows = .ok arranged) :
    ∃ order : List Members, order.Perm rows ∧
      (¬1 < (query_pairs py query).length ∧ arranged = order ∨
        ∃ labelled : List (SourcePair × Members), labelled.map (·.2) = order ∧
          (∀ l ∈ labelled, row_source (query_pairs py query) l.2 = .ok l.1) ∧
          arranged = (interleave (bare (byTag Prod.fst labelled))).map (·.2)) := by
  refine ⟨prefer py preferred (spread_evidence_in_time py rows), (prefer_perm _ _).trans (spread_perm rows), ?_⟩
  rw [arrange] at h
  split at h
  next =>
    obtain ⟨labelled, hlabelled, h⟩ := bind_eq_ok.mp h
    exact .inr ⟨labelled, (label_eq_ok hlabelled).1, (label_eq_ok hlabelled).2, (Except.ok.inj h).symm⟩
  next hone => exact .inl ⟨hone, (Except.ok.inj h).symm⟩

theorem arrange_perm (h : arrange py preferred query rows = .ok arranged) : arranged.Perm rows := by
  obtain ⟨order, hperm, ⟨-, rfl⟩ | ⟨labelled, rfl, -, rfl⟩⟩ := arrange_eq_ok h
  · exact hperm
  · exact (((interleave_perm _).trans (byTag_perm Prod.fst labelled)).map _).trans hperm

/-- The source of a row, for a query of several pairs. -/
def sourceTag (pairs : List SourcePair) (row : Members) : Option SourcePair := (row_source pairs row).toOption

/-- Any beginning of the arranged rows is fair to the sources. -/
theorem arrange_fair (h : arrange py preferred query rows = .ok arranged)
    (hpairs : 1 < (query_pairs py query).length) (n : Nat) :
    Fair (sourceTag (query_pairs py query)) arranged (arranged.take n) := by
  obtain ⟨order, -, ⟨hone, -⟩ | ⟨labelled, -, hsource, rfl⟩⟩ := arrange_eq_ok h
  · exact absurd hpairs hone
  · have hperm := (interleave_perm _).trans (byTag_perm Prod.fst labelled)
    -- counting rows of a source is counting labels
    have hcount : ∀ (key : Option SourcePair) {sub : List (SourcePair × Members)}, sub ⊆ labelled →
        (sub.map (·.2)).countP (sourceTag (query_pairs py query) · = key) = sub.countP (some ·.1 = key) := by
      intro key sub hsub
      rw [List.countP_map]
      refine List.countP_congr fun l hl => ?_
      simp [sourceTag, hsource l (hsub hl), Except.toOption]
    have hall := hperm.subset
    have htake := List.Subset.trans (List.take_subset n _) hall
    rw [← List.map_take]
    intro key key' hlt
    rw [hcount key' htake, hcount key htake] at hlt
    rw [hcount key' htake, hcount key' hall]
    have hfair := (byTag_tagged Prod.fst labelled).fair n
    cases key with
    | none => simp at hlt
    | some source =>
        cases key' with
        | none => simp
        | some source' =>
            simp only [Option.some.injEq] at hlt ⊢
            exact hfair source source' hlt

/-! ### The queries -/

theorem rows_by_query_eq_ok (h : rows_by_query py query_ids preferred evidence queries = .ok groups) :
    groups.map (·.1) = query_order py query_ids evidence queries ∧
      ∀ g ∈ groups, arrange py preferred (query_record py query_ids queries g.1)
        ((records py query_ids evidence).filter (query_key py · = g.1)) = .ok g.2 := by
  have hall := forall₂_of_mapM h
  clear h
  generalize query_order py query_ids evidence queries = order at hall
  induction hall with
  | nil => simp
  | @cons query_id g order groups hg _ ih =>
      obtain ⟨rows, hrows, hg⟩ := bind_eq_ok.mp hg
      obtain rfl := Except.ok.inj hg
      exact ⟨congrArg (query_id :: ·) ih.1, List.forall_mem_cons.mpr ⟨hrows, ih.2⟩⟩

/-- The rows by query are groups of the records. -/
theorem rows_by_query_tagged (h : rows_by_query py query_ids preferred evidence queries = .ok groups) :
    Tagged (query_key py) groups where
  distinct := (rows_by_query_eq_ok h).1 ▸ nodup_eraseDups _
  tags := by
    intro g hg row hrow
    have hmem := (arrange_perm ((rows_by_query_eq_ok h).2 g hg)).subset hrow
    exact of_decide_eq_true (List.mem_filter.mp hmem).2

/-- They hold every record once. -/
theorem rows_by_query_perm (h : rows_by_query py query_ids preferred evidence queries = .ok groups) :
    (bare groups).flatten.Perm (records py query_ids evidence) := by
  obtain ⟨horder, hrows⟩ := rows_by_query_eq_ok h
  have hgroups : (bare groups).flatten.Perm
      (groups.map fun g => (records py query_ids evidence).filter (query_key py · = g.1)).flatten := by
    refine List.Perm.flatten_congr ?_
    rw [bare, List.forall₂_map_left_iff, List.forall₂_map_right_iff, List.forall₂_same]
    exact fun g hg => arrange_perm (hrows g hg)
  have hkeys : (groups.map fun g => (records py query_ids evidence).filter (query_key py · = g.1)).flatten =
      (query_order py query_ids evidence queries).flatMap fun query_id =>
        (records py query_ids evidence).filter (query_key py · = query_id) := by
    rw [← horder, List.flatMap_map]
    rfl
  rw [hkeys] at hgroups
  refine hgroups.trans (flatMap_filter_perm _ (nodup_eraseDups _) fun row hrow => ?_)
  exact List.mem_eraseDups.mpr (List.mem_append_right _ (List.mem_map_of_mem hrow))

/-- Records are readable if what was retained of each is a dictionary. -/
def Readable (available : List Members) : Prop :=
  ∀ row ∈ available, ∃ event, selected_result row = .ok event

theorem row_source_ok {pairs : List SourcePair} {row : Members} (h : ∃ event, selected_result row = .ok event) :
    ∃ source, row_source pairs row = .ok source := by
  obtain ⟨event, h⟩ := h
  rw [selected_result] at h
  split at h
  next hnone => exact ⟨_, by rw [row_source, hnone]; rfl⟩
  next hsome => exact ⟨_, by rw [row_source, hsome]; rfl⟩
  next => cases h

theorem exists_mapM {α β ε : Type} {f : α → Except ε β} :
    ∀ {as : List α}, (∀ a ∈ as, ∃ b, f a = .ok b) → ∃ bs, as.mapM f = .ok bs
  | [], _ => ⟨[], rfl⟩
  | a :: as, h => by
      obtain ⟨⟨b, hb⟩, hrest⟩ := List.forall_mem_cons.mp h
      obtain ⟨bs, hbs⟩ := exists_mapM hrest
      exact ⟨b :: bs, by rw [List.mapM_cons, hb, ok_bind, hbs]; rfl⟩

/-- Readable records are grouped without an error. -/
theorem exists_rows_by_query (h : Readable (records py query_ids evidence)) :
    ∃ groups, rows_by_query py query_ids preferred evidence queries = .ok groups := by
  refine exists_mapM fun query_id _ => ?_
  set rows := (records py query_ids evidence).filter (query_key py · = query_id)
  obtain ⟨arranged, harranged⟩ : ∃ arranged,
      arrange py preferred (query_record py query_ids queries query_id) rows = .ok arranged := by
    rw [arrange]
    split
    next =>
      have hlabels : ∀ row ∈ prefer py preferred (spread_evidence_in_time py rows), ∃ l,
          (do return (← row_source (query_pairs py (query_record py query_ids queries query_id)) row, row)) =
            (.ok l : Except PyError (SourcePair × Members)) := by
        intro row hrow
        have hmem := List.mem_of_mem_filter (((prefer_perm _ _).trans (spread_perm rows)).subset hrow)
        obtain ⟨source, hsource⟩ := row_source_ok (h row hmem)
        exact ⟨(source, row), by rw [hsource]; rfl⟩
      obtain ⟨labelled, hlabelled⟩ := exists_mapM hlabels
      exact ⟨_, by rw [hlabelled]; rfl⟩
    next => exact ⟨_, rfl⟩
  exact ⟨(query_id, arranged), by rw [harranged]; rfl⟩

/-! ### The sample -/

variable {limit : Int} {requested : List (List String)} {sampled : List Members} {covered : List QueryCoverage}

/-- A sample is the beginning of an order that does not depend on the limit. -/
theorem balanced_evidence_sample_eq_ok :
    balanced_evidence_sample py evidence queries query_ids limit preferred requested = .ok (sampled, covered) ↔
      0 < limit ∧ ∃ groups, rows_by_query py query_ids preferred evidence queries = .ok groups ∧
        sampled = (order (evidence_key py) (bare groups) (asks py requested)).take limit.toNat ∧
        covered = groups.map fun g => coverageOf py (query_record py query_ids queries g.1) sampled g := by
  rw [balanced_evidence_sample]
  by_cases hlimit : limit ≤ 0
  · simp [hlimit, throw, throwThe, MonadExceptOf.throw]
  · rw [if_neg hlimit]
    show (rows_by_query py query_ids preferred evidence queries >>= _) = _ ↔ _
    rw [bind_eq_ok]
    simp only [rounds_eq, pure, Except.pure, Except.ok.injEq, Prod.mk.injEq]
    constructor
    · rintro ⟨groups, hgroups, rfl, rfl⟩
      exact ⟨by omega, groups, hgroups, rfl, rfl⟩
    · rintro ⟨-, groups, hgroups, rfl, rfl⟩
      exact ⟨groups, hgroups, rfl, rfl⟩

/-- What holds of a sample of the records, and of the coverage that goes with it. -/
structure Balanced (py : Interpreter) (source : String → List SourcePair) (order : List String)
    (available : List Members) (limit : Nat) (fair : Prop) (sampled : List Members) (covered : List QueryCoverage) : Prop where
  unique : (sampled.map (evidence_key py)).Nodup
  subset : sampled ⊆ available
  length : sampled.length = min limit available.length
  /-- The queries are treated alike. -/
  queries : fair → Fair (query_key py) available sampled
  /-- Within a query of several sources, the sources are treated alike. -/
  sources : fair → ∀ q ∈ order, 1 < (source q).length →
    Fair (sourceTag (source q)) (available.filter (query_key py · = q)) (sampled.filter (query_key py · = q))
  /-- There is an entry for each query, with the counts of its records. -/
  covers : covered.map (·.query_id) = order
  counts : ∀ c ∈ covered,
    c.retained_evidence_count = available.countP (query_key py · = c.query_id) ∧
    c.supplied_evidence_count = sampled.countP (query_key py · = c.query_id) ∧
    c.supplied_evidence_count + c.omitted_evidence_count = c.retained_evidence_count

/-- Without requests, the rows of one query are sampled in their order. -/
theorem filter_order_take (h : rows_by_query py query_ids preferred evidence queries = .ok groups)
    {g : String × List Members} (hg : g ∈ groups) (n : Nat) :
    ∃ m, ((order (evidence_key py) (bare groups) (asks py [])).take n).filter (query_key py · = g.1) = g.2.take m := by
  have hstart := ( List.take_prefix n (interleave (bare groups))).filter (query_key py · = g.1)
  rw [(rows_by_query_tagged h).filter_interleave hg] at hstart
  exact ⟨_, by rw [asks, List.map_nil, List.nil_append, order_all]; exact List.prefix_iff_eq_take.mp hstart⟩

/-- The order of all rounds has every record once. -/
theorem order_records (h : rows_by_query py query_ids preferred evidence queries = .ok groups)
    (hids : ((records py query_ids evidence).map (evidence_key py)).Nodup) (requested : List (List String)) :
    (order (evidence_key py) (bare groups) (asks py requested)).Perm (records py query_ids evidence) := by
  have hperm := rows_by_query_perm h
  exact (order_perm (((hperm.map _).nodup_iff).mpr hids) _).trans hperm

/-- Records that are sampled name a query. -/
theorem countP_supplied (h : sampled ⊆ records py query_ids evidence) (query_id : String) :
    (sampled.countP fun row => value row "query_id" ≠ .null && query_key py row = query_id) =
      sampled.countP (query_key py · = query_id) := by
  refine List.countP_congr fun row hrow => ?_
  have hallowed := (List.mem_filter.mp (h hrow)).2
  rw [allowed, Bool.and_eq_true] at hallowed
  simp [of_decide_eq_true hallowed.1]

/-- A sample of records with their own ids has the properties of a balanced one. -/
theorem balanced_of_groups (hids : ((records py query_ids evidence).map (evidence_key py)).Nodup)
    (h : rows_by_query py query_ids preferred evidence queries = .ok groups) (n : Nat) :
    Balanced py (fun q => query_pairs py (query_record py query_ids queries q))
      (query_order py query_ids evidence queries) (records py query_ids evidence) n (requested = [])
      ((order (evidence_key py) (bare groups) (asks py requested)).take n)
      (groups.map fun g => coverageOf py (query_record py query_ids queries g.1)
        ((order (evidence_key py) (bare groups) (asks py requested)).take n) g) := by
  obtain ⟨horder, hrows⟩ := rows_by_query_eq_ok h
  have hperm := order_records h hids requested
  have hsub := List.Subset.trans (List.take_subset n _) hperm.subset
  constructor
  case unique => exact (((hperm.map _).nodup_iff).mpr hids).sublist ((List.take_sublist n _).map _)
  case subset => exact hsub
  case length => rw [List.length_take, hperm.length_eq]
  case queries =>
    rintro rfl
    have hfair := (rows_by_query_tagged h).fair n
    rw [asks, List.map_nil, List.nil_append, order_all] at hperm ⊢
    exact hfair.perm hperm
  case sources =>
    rintro rfl q hq hpairs
    obtain ⟨g, hg, rfl⟩ := List.mem_map.mp (horder ▸ hq)
    obtain ⟨m, hm⟩ := filter_order_take h hg n
    rw [hm]
    exact (arrange_fair (hrows g hg) hpairs m).perm (arrange_perm (hrows g hg))
  case covers =>
    rw [List.map_map, ← horder]
    rfl
  case counts =>
    intro c hc
    obtain ⟨g, hg, rfl⟩ := List.mem_map.mp hc
    have hretained : g.2.length = (records py query_ids evidence).countP (query_key py · = g.1) := by
      rw [(arrange_perm (hrows g hg)).length_eq, List.countP_eq_length_filter]
    have hsupplied := countP_supplied hsub g.1
    have hle := (@List.Sublist.countP_le _ (query_key py · = g.1) _ _ (List.take_sublist n _)).trans
      (hperm.countP_eq (query_key py · = g.1)).le
    refine ⟨hretained, hsupplied, ?_⟩
    show List.countP _ _ + (g.2.length - List.countP _ _) = g.2.length
    rw [hsupplied, hretained]
    exact Nat.add_sub_cancel' hle

/-- **Balanced sample.** Readable records are sampled under any positive limit. If their ids are unique, the
sample has each at most once and as many as the limit allows, it is fair to queries and to the sources
of a query where no groups are requested, the coverage counts what is there and what is sampled, and
a limit of one more adds to the sample at its end. -/
theorem balanced_sample (py : Interpreter) (evidence queries : Json) (query_ids : Option (List String)) (limit : Int)
    (preferred : List String) (requested : List (List String))
    (hids : ((records py query_ids evidence).map (evidence_key py)).Nodup) :
    (0 < limit → Readable (records py query_ids evidence) →
      ∃ result, balanced_evidence_sample py evidence queries query_ids limit preferred requested = .ok result) ∧
    ∀ sampled covered,
      balanced_evidence_sample py evidence queries query_ids limit preferred requested = .ok (sampled, covered) →
      Balanced py (fun q => query_pairs py (query_record py query_ids queries q))
        (query_order py query_ids evidence queries) (records py query_ids evidence) limit.toNat (requested = [])
        sampled covered ∧
      ∃ more coveredMore,
        balanced_evidence_sample py evidence queries query_ids (limit + 1) preferred requested =
          .ok (more, coveredMore) ∧ sampled <+: more := by
  constructor
  · intro hlimit hreadable
    obtain ⟨groups, hgroups⟩ := exists_rows_by_query hreadable
    exact ⟨(_, _), balanced_evidence_sample_eq_ok.mpr ⟨hlimit, groups, hgroups, rfl, rfl⟩⟩
  · intro sampled covered h
    obtain ⟨hlimit, groups, hgroups, rfl, rfl⟩ := balanced_evidence_sample_eq_ok.mp h
    have hsucc : (limit + 1).toNat = limit.toNat + 1 := by omega
    refine ⟨balanced_of_groups hids hgroups limit.toNat, _, _,
      balanced_evidence_sample_eq_ok.mpr ⟨by omega, groups, hgroups, rfl, rfl⟩, ?_⟩
    rw [hsucc]
    exact List.take_prefix_take_left (Nat.le_succ _)

/-- Two queries: one with four records, three of known time, and one with a record. -/
def sampleRows : Json :=
  .array <| [("e-1", "q-1", "2026-01-01T10:00:00Z"), ("e-2", "q-1", "2026-01-01T10:01:00Z"),
    ("e-3", "q-1", "invalid-time"), ("e-4", "q-1", "2026-01-01T10:02:00Z"), ("e-5", "q-2", "invalid-time")].map
      fun (evidence_id, query_id, event_time_utc) =>
        .object [("evidence_id", .string evidence_id), ("query_id", .string query_id),
          ("event_time_utc", .string event_time_utc), ("selected_result", .object [])]

theorem balanced_sample_of_two_queries :
    ∃ sampled covered, balanced_evidence_sample sampleInterpreter sampleRows (.array []) none 3 [] [] =
        .ok (sampled, covered) ∧ sampled.length = 3 := by
  have hreadable : Readable (records sampleInterpreter none sampleRows) := by
    intro row hrow
    refine exists_of_toBool ?_
    revert row
    decide
  obtain ⟨hreturns, hall⟩ := balanced_sample sampleInterpreter sampleRows (.array []) none 3 [] [] (by decide)
  obtain ⟨⟨sampled, covered⟩, hsample⟩ := hreturns (by decide) hreadable
  have hlength := (hall sampled covered hsample).1.length
  have havailable : (records sampleInterpreter none sampleRows).length = 5 := by decide
  rw [havailable] at hlength
  exact ⟨sampled, covered, hsample, hlength⟩

end

end Sampling

end ThreatHunting
