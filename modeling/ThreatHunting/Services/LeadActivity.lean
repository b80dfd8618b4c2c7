import ThreatHunting.Lib.Bisect
import ThreatHunting.Services.Timeline

/-!
# ThreatHunting.Services.LeadActivity

`retained_lead_activity` of `services/evidence.py`: the retained raw records that share the
literal identity of a lead, before, at and after the time of the lead. The records of a
scope are not searched for; every record is looked up under the few combinations of fields
that scopes have, in an index all leads share, and the periods of a lead are cut out of the
ordered times by bisection. The index is compared with a plain scan of the records.
-/

namespace ThreatHunting

namespace EvidenceLookup

open Fallible Bisect
open ModelOutput (Members PyError get iterate)
open Spl (Time)

/-! ### Scopes -/

/-- Field names with their values. -/
abbrev Identity := List (String × String)

/-- An entry of `lead_coverage` of a question answer. -/
structure LeadCoverage where
  lead_evidence_ids : List String
  identity_fields : Identity
  deriving DecidableEq, Repr

/-- The value of a field. -/
def Identity.field (identity : Identity) (field : String) : Option String := identity.lookup field

/-- Does an identity have all of some fields? -/
def Identity.has (identity : Identity) (fields : List String) : Bool :=
  fields.all fun field => (identity.field field).isSome

/-- The identity restricted to some fields. -/
def Identity.restrict (identity : Identity) (fields : List String) : Identity :=
  fields.filterMap fun field => (identity.field field).map (field, ·)

/-- `tuple(sorted(selected.items()))`. -/
def Identity.key (selected : Identity) : Identity :=
  selected.insertionSort fun a b => a.1 < b.1 ∨ a.1 = b.1 ∧ a.2 ≤ b.2

/-- A scope: its key, its id, and the identity it was entered with. -/
structure Scope where
  key : Identity
  scope_id : String
  identity_fields : Identity
  deriving DecidableEq, Repr

/-- The scopes so far. -/
abbrev Scopes := List Scope

/-- `scopes.get(key)`. -/
def Scopes.get (scopes : Scopes) (key : Identity) : Option String := (scopes.find? (·.key = key)).map (·.scope_id)

/-- The id of the scope of an identity, which is entered if it is new. -/
def Scopes.enter (scopes : Scopes) (selected : Identity) : Scopes × String :=
  match scopes.get selected.key with
  | some scope_id => (scopes, scope_id)
  | none =>
      let scope_id := "scope_" ++ toString (scopes.length + 1)
      (scopes ++ [⟨selected.key, scope_id, selected⟩], scope_id)

/-- The ids of the scopes of some identities. -/
def Scopes.enterAll (scopes : Scopes) : List Identity → Scopes × List String
  | [] => (scopes, [])
  | selected :: filters =>
      let entered := scopes.enter selected
      let rest := Scopes.enterAll entered.1 filters
      (rest.1, entered.2 :: rest.2)

/-! ### Leads -/

/-- `leads`: the first entry of each lead, by the first of its evidence ids. -/
def leadsOf (coverage : List LeadCoverage) : List LeadCoverage :=
  coverage.foldl (fun leads lead =>
    if lead.lead_evidence_ids = [] ∨ leads.any (·.lead_evidence_ids.head? = lead.lead_evidence_ids.head?) then leads
    else leads ++ [lead]) []

section Model

variable (py : Interpreter)

/-- `evidence`: the raw records with a selected result. -/
def selectable (evidence : List Members) : List Members :=
  evidence.filter fun record => is_raw_event record &&
    match get record "selected_result" with
    | some (.object _) => true
    | _ => false

/-- `originals`: the records of a lead. -/
def originals (evidence : List Members) (lead : LeadCoverage) : List Members :=
  lead.lead_evidence_ids.filterMap (lastBy py (selectable evidence) "evidence_id")

/-- The time of a lead: the earliest known one of its records. -/
def anchor (evidence : List Members) (lead : LeadCoverage) : Option Time :=
  ((originals py evidence lead).filterMap (raw_event_time py)).min?

/-- Does an event have a native identity field that is not the lead's? -/
def ambiguous (identity : Identity) (event : Members) : Bool :=
  ["host", "process_guid", "user", "session_id"].any fun field =>
    match get event field with
    | none => false
    | some (.string s) => identity.field field ≠ some s
    | some _ => true

/-- `filters`: the whole identity if it names a process, and the session if it names one. -/
def filtersOf (identity : Identity) : List Identity :=
  (if identity.has ["host", "process_guid"] then [identity] else []) ++
    if identity.has ["host", "user", "session_id"] then [identity.restrict ["host", "user", "session_id"]] else []

/-- What is selected for a lead, and what limits it. -/
def selection (evidence : List Members) (lead : LeadCoverage) : List Identity × Option String :=
  match originals py evidence lead with
  | [] => ([], some "Original lead records are unavailable; related activity cannot be selected.")
  | original :: _ =>
      if ambiguous lead.identity_fields (eventOf original) then
        ([], some ("Missing or ambiguous native identity prevents an exact related-record selection. " ++
          "Original observations remain in the timeline."))
      else
        (filtersOf lead.identity_fields,
          if (filtersOf lead.identity_fields).isEmpty then
            some ("Native fields do not identify an exact process or session selection. " ++
              "Original observations remain in the timeline.")
          else if (lead.identity_fields.field "process_guid").isNone then
            some "Process identity is unavailable; only the recorded host, user and session context is selected."
          else none)

/-- A lead with the ids of its scopes. -/
structure SelectedLead where
  lead : LeadCoverage
  scope_ids : List String
  limitation : Option String

/-- The loop that selects scopes for the leads. -/
def selectScopes (evidence : List Members) (leads : List LeadCoverage) : Scopes × List SelectedLead :=
  leads.foldl (fun state lead =>
    let (filters, limitation) := selection py evidence lead
    let entered := state.1.enterAll filters
    (entered.1, state.2 ++ [⟨lead, entered.2, limitation⟩])) ([], [])

/-! ### The index -/

/-- The values of some fields, if they are all single strings. -/
def literals (event : Members) (fields : List String) : Option Identity :=
  fields.mapM fun field =>
    match get event field with
    | some (.string s) => some (field, s)
    | _ => none

/-- `shapes`: the combinations of fields that scopes have. -/
def Scopes.shapes (scopes : Scopes) : List (List String) :=
  (scopes.map fun scope => scope.key.map (·.1)).dedup

/-- `scope_rows[scope["scope_id"]].append(row)`, if a scope was found. -/
def append_row (scope_rows : String → List Members) (row : Members) : Option String → String → List Members
  | some scope_id => Function.update scope_rows scope_id (scope_rows scope_id ++ [row])
  | none => scope_rows

/-- Look a row up under every shape. -/
def indexRow (scopes : Scopes) (shapes : List (List String)) (scope_rows : String → List Members) (row : Members) :
    String → List Members :=
  shapes.foldl (fun scope_rows fields =>
    append_row scope_rows row ((literals (eventOf row) fields).bind scopes.get)) scope_rows

/-- The rows of the timeline that can be selected. -/
def timelineRows (evidence : List Members) (timeline : List TimelineReference) : List Members :=
  timeline.filterMap fun reference => lastBy py (selectable evidence) "evidence_id" reference.evidence_id

/-- `scope_rows`. -/
def index (scopes : Scopes) (rows : List Members) : String → List Members :=
  rows.foldl (indexRow scopes scopes.shapes) fun _ => []

/-! ### What is said of a scope -/

/-- What a scope says of one query. -/
structure ScopeCoverage where
  query_id : String
  retrieval_status : String
  matching_raw_record_count : Nat
  earliest_utc : Json
  latest_utc : Json
  deriving DecidableEq

/-- What a scope says of one action. -/
structure ScopeAction where
  action : Option String
  raw_record_count : Nat
  time_bounds : TimeBounds
  deriving DecidableEq

/-- A scope. -/
structure ScopeActivity where
  scope_id : String
  identity_fields : Identity
  evidence_ids : List String
  raw_record_count : Nat
  time_bounds : TimeBounds
  fields : List FieldCount
  query_coverage : List ScopeCoverage
  actions : List ScopeAction
  deriving DecidableEq

/-- The action of a row, if it is a text that is not blank. -/
def actionOf (row : Members) : Option String :=
  match get (eventOf row) "action" with
  | some (.string s) => if strip s.toList = [] then none else some s
  | _ => none

/-- The default fields of `retained_field_counts`. -/
def countedFields : List String := ["host", "user", "src_ip", "dest_ip", "process_guid", "process", "session_id"]

/-- `scope.update(…)`. -/
def describeScope (queries : List Members) (rows : List Members) (scope : Scope) :
    Except PyError ScopeActivity := do
  let evidence_ids ← rows.mapM fun row => do return py.text (← item row "evidence_id")
  let fields ← retained_field_counts rows countedFields
  let query_ids := (rows.map (textOr py · "query_id")).eraseDups
  return {
    scope_id := scope.scope_id
    identity_fields := scope.identity_fields
    evidence_ids
    raw_record_count := rows.length
    time_bounds := evidence_time_bounds py rows
    fields
    query_coverage := query_ids.map fun query_id =>
      let query := lastBy py queries "query_id" query_id
      { query_id
        retrieval_status := coverage query
        matching_raw_record_count := rows.countP (textOr py · "query_id" = query_id)
        earliest_utc := value (query.getD []) "earliest_utc"
        latest_utc := value (query.getD []) "latest_utc" }
    actions := (rows.map actionOf).eraseDups.map fun action =>
      let group := rows.filter (actionOf · = action)
      { action, raw_record_count := group.length, time_bounds := evidence_time_bounds py group } }

/-! ### Periods -/

/-- The records of one period of a scope. -/
structure Period where
  relative_to_lead : String
  raw_record_count : Nat
  first_event_time_utc : Option String
  last_event_time_utc : Option String
  deriving DecidableEq, Repr

/-- The period between two positions of the ordered times, unless it is empty. -/
def slice (times : List Time) (relative_to_lead : String) (first last : Nat) : List Period :=
  if first < last then
    [{ relative_to_lead, raw_record_count := last - first
       first_event_time_utc := times[first]?.map isoformat
       last_event_time_utc := times[last - 1]?.map isoformat }]
  else []

/-- The records of unknown relation to the lead, unless there are none. -/
def unrelated (count : Nat) : List Period :=
  if count = 0 then [] else [⟨"unknown", count, none, none⟩]

/-- `periods` of one scope, relative to the time of a lead. -/
def periods (anchor : Option Time) (rows : List Members) : List Period :=
  let times := rows.filterMap (raw_event_time py)
  match anchor with
  | none => unrelated rows.length
  | some anchor =>
      let left := bisect_left times anchor
      let right := bisect_right times anchor
      slice times "before" 0 left ++ slice times "at" left right ++ slice times "after" right times.length ++
        unrelated (rows.length - times.length)

/-- A lead with its periods. -/
structure LeadActivity where
  lead : LeadCoverage
  anchor_event_time_utc : Option String
  scopes : List (String × List Period)
  limitation : Option String

/-- The activity around all leads. -/
structure Activity where
  leads : List LeadActivity
  scopes : List ScopeActivity

/-- The queries of the results, which must have a `get`. -/
def queryList (results : Members) : Except PyError (List Members) := do
  (← iterate ((get results "queries").getD (.array []))).mapM fun
    | .object ms => .ok ms
    | _ => .error .attribute_error

/-- `retained_lead_activity`, for the lead coverage of the question answers. -/
def retained_lead_activity (results : Members) (coverage : List LeadCoverage) : Except PyError Activity := do
  let leads := leadsOf coverage
  if leads = [] then return ⟨[], []⟩
  let evidence ← resultList results "evidence"
  let timeline ← retained_timeline py results
  let selected := selectScopes py evidence leads
  let scope_rows := index selected.1 (timelineRows py evidence timeline)
  let queries ← queryList results
  let scopes ← selected.1.mapM fun scope => describeScope py queries (scope_rows scope.scope_id) scope
  return {
    leads := selected.2.map fun s => {
      lead := s.lead
      anchor_event_time_utc := (anchor py evidence s.lead).map isoformat
      scopes := s.scope_ids.map fun scope_id => (scope_id, periods py (anchor py evidence s.lead) (scope_rows scope_id))
      limitation := s.limitation }
    scopes }

end Model

/-! ### The plain scan -/

/-- Does a record have all values of an identity, each as a single string? -/
def carries (identity : Identity) (record : Members) : Bool :=
  match get record "selected_result" with
  | some (.object event) => identity.all fun (field, value) => get event field = some (.string value)
  | _ => false

/-- The raw records that share an identity. -/
def scan (evidence : List Members) (identity : Identity) : List Members :=
  evidence.filter fun record => is_raw_event record && carries identity record

/-- The period of a record relative to the time of a lead. -/
def periodOf (anchor stamp : Option Time) : String :=
  match anchor, stamp with
  | some anchor, some stamp =>
      if stamp < anchor then "before" else if anchor < stamp then "after" else "at"
  | _, _ => "unknown"

/-- The number of records of a period. -/
def inPeriod (periods : List Period) (relative_to_lead : String) : Nat :=
  ((periods.filter (·.relative_to_lead = relative_to_lead)).map (·.raw_record_count)).sum

section

variable {py : Interpreter} {scopes : Scopes} {scope : Scope} {selected : Identity} {row : Members} {rows : List Members}
  {evidence : List Members} {event : Members}

/-! ### Scopes are entered once -/

/-- The ids are numbered, the keys are different, and each key is that of its identity. -/
structure Scopes.Sound (scopes : Scopes) : Prop where
  numbered : ∀ i (h : i < scopes.length), scopes[i].scope_id = "scope_" ++ toString (i + 1)
  distinct : (scopes.map (·.key)).Nodup
  keyed : ∀ scope ∈ scopes, scope.key = scope.identity_fields.key

theorem scope_id_injective {m n : Nat} (h : "scope_" ++ toString (m + 1) = "scope_" ++ toString (n + 1)) : m = n := by
  have hlist := congrArg String.toList h
  rw [String.toList_append, String.toList_append, List.append_cancel_left_eq] at hlist
  exact Nat.succ_injective (Nat.repr_injective (String.toList_injective hlist))

/-- Two scopes of one id are one. -/
theorem Scopes.Sound.eq_of_id (h : scopes.Sound) {a b : Scope} (ha : a ∈ scopes) (hb : b ∈ scopes)
    (hid : a.scope_id = b.scope_id) : a = b := by
  obtain ⟨i, hi, rfl⟩ := List.getElem_of_mem ha
  obtain ⟨j, hj, rfl⟩ := List.getElem_of_mem hb
  rw [h.numbered i hi, h.numbered j hj] at hid
  obtain rfl := scope_id_injective hid
  rfl

theorem Scopes.get_eq_some {key : Identity} {scope_id : String} (h : scopes.get key = some scope_id) :
    ∃ scope ∈ scopes, scope.key = key ∧ scope.scope_id = scope_id := by
  obtain ⟨scope, hfind, rfl⟩ := Option.map_eq_some_iff.mp h
  exact ⟨scope, List.mem_of_find?_eq_some hfind, by simpa using List.find?_some hfind, rfl⟩

/-- A scope is found under its key. -/
theorem Scopes.Sound.get_key (h : scopes.Sound) (hscope : scope ∈ scopes) : scopes.get scope.key = some scope.scope_id := by
  cases hget : scopes.get scope.key with
  | none =>
      have hnone := List.find?_eq_none.mp (Option.map_eq_none_iff.mp hget) scope hscope
      simp at hnone
  | some scope_id =>
      obtain ⟨found, hfound, hkey, rfl⟩ := Scopes.get_eq_some hget
      rw [List.inj_on_of_nodup_map h.distinct hfound hscope hkey]

/-- Entering an identity keeps the scopes there are, and gives the id of a scope with its key. -/
theorem Scopes.Sound.enter (h : scopes.Sound) (selected : Identity) :
    (scopes.enter selected).1.Sound ∧ scopes <+: (scopes.enter selected).1 ∧
      ∃ scope ∈ (scopes.enter selected).1, scope.key = selected.key ∧ scope.scope_id = (scopes.enter selected).2 := by
  unfold Scopes.enter
  split
  next scope_id hget => exact ⟨h, List.prefix_refl _, Scopes.get_eq_some hget⟩
  next hget =>
    have hnew : ∀ scope ∈ scopes, scope.key ≠ selected.key := by
      simpa [Scopes.get, List.find?_eq_none] using hget
    refine ⟨⟨fun i hi => ?_, ?_, ?_⟩, List.prefix_append _ _, _, List.mem_append_right _ (List.mem_singleton_self _), rfl, rfl⟩
    · rw [List.getElem_append]
      split
      next hlt => exact h.numbered i hlt
      next hge =>
        have : i = scopes.length := by simp at hi; omega
        subst this
        simp
    · rw [List.map_append, List.nodup_append]
      refine ⟨h.distinct, by simp, ?_⟩
      rintro key hkey _ hsingle rfl
      obtain ⟨scope, hscope, rfl⟩ := List.mem_map.mp hkey
      exact hnew scope hscope (by simpa using hsingle)
    · intro scope hscope
      rcases List.mem_append.mp hscope with hold | hsingle
      · exact h.keyed scope hold
      · rw [List.mem_singleton.mp hsingle]

/-- The scopes have a scope of this id for an identity that is selected. -/
def Scopes.HasFor (scopes : Scopes) (filters : List Identity) (scope_id : String) : Prop :=
  ∃ scope ∈ scopes, scope.scope_id = scope_id ∧ ∃ selected ∈ filters, scope.key = selected.key

theorem Scopes.Sound.enterAll (h : scopes.Sound) (filters : List Identity) :
    (scopes.enterAll filters).1.Sound ∧ scopes <+: (scopes.enterAll filters).1 ∧
      ∀ scope_id ∈ (scopes.enterAll filters).2, (scopes.enterAll filters).1.HasFor filters scope_id := by
  induction filters generalizing scopes with
  | nil => exact ⟨h, List.prefix_refl _, by simp [Scopes.enterAll]⟩
  | cons selected filters ih =>
      obtain ⟨hentered, hprefix, scope, hscope, hkey, hid⟩ := h.enter selected
      obtain ⟨hrest, hprefix', hids⟩ := ih hentered
      refine ⟨hrest, hprefix.trans hprefix', fun scope_id hmem => ?_⟩
      rcases List.mem_cons.mp hmem with rfl | hmem
      · exact ⟨scope, hprefix'.subset hscope, hid, selected, List.mem_cons_self, hkey⟩
      · obtain ⟨scope, hscope, hid, selected', hselected, hkey⟩ := hids scope_id hmem
        exact ⟨scope, hscope, hid, selected', List.mem_cons_of_mem _ hselected, hkey⟩

theorem Scopes.HasFor.later {later : Scopes} {filters : List Identity} {scope_id : String}
    (h : scopes.HasFor filters scope_id) (hlater : scopes <+: later) : later.HasFor filters scope_id := by
  obtain ⟨scope, hscope, hrest⟩ := h
  exact ⟨scope, hlater.subset hscope, hrest⟩

/-- Every selected lead has scopes for what is selected for it. -/
theorem selectScopes_spec (evidence : List Members) (leads : List LeadCoverage) :
    (selectScopes py evidence leads).1.Sound ∧ ∀ s ∈ (selectScopes py evidence leads).2, ∀ scope_id ∈ s.scope_ids,
      (selectScopes py evidence leads).1.HasFor (selection py evidence s.lead).1 scope_id := by
  refine List.foldlRecOn leads _ (motive := fun state : Scopes × List SelectedLead => state.1.Sound ∧
    ∀ s ∈ state.2, ∀ scope_id ∈ s.scope_ids, state.1.HasFor (selection py evidence s.lead).1 scope_id) ?_ ?_
  · exact ⟨⟨by simp, by simp, by simp⟩, by simp⟩
  · rintro ⟨scopes, selected⟩ ⟨hsound, hselected⟩ lead _
    obtain ⟨hsound', hprefix, hids⟩ := hsound.enterAll (selection py evidence lead).1
    refine ⟨hsound', fun s hs scope_id hid => ?_⟩
    rcases List.mem_append.mp hs with hold | hnew
    · exact (hselected s hold scope_id hid).later hprefix
    · rw [List.mem_singleton.mp hnew] at hid ⊢
      exact hids scope_id hid

theorem mem_of_field {identity : Identity} {field value : String} (h : identity.field field = some value) :
    (field, value) ∈ identity := by
  obtain ⟨before, after, rfl, -⟩ := List.lookup_eq_some_iff.mp h
  simp

/-- What is selected for a lead is part of its identity. -/
theorem mem_identity_of_selection {lead : LeadCoverage} (hselected : selected ∈ (selection py evidence lead).1)
    {f : String × String} (hf : f ∈ selected) : f ∈ lead.identity_fields := by
  have hfilters : selected ∈ filtersOf lead.identity_fields := by
    unfold selection at hselected
    split at hselected
    next => cases hselected
    next =>
      split at hselected
      next => cases hselected
      next => exact hselected
  rcases List.mem_append.mp hfilters with hprocess | hsession
  · split at hprocess
    next => rwa [List.mem_singleton.mp hprocess] at hf
    next => cases hprocess
  · split at hsession
    next =>
      rw [List.mem_singleton.mp hsession] at hf
      obtain ⟨field, -, hfield⟩ := List.mem_filterMap.mp hf
      obtain ⟨value, hvalue, rfl⟩ := Option.map_eq_some_iff.mp hfield
      exact mem_of_field hvalue
    next => cases hsession

/-! ### The index agrees with the scan -/

theorem key_perm (selected : Identity) : selected.key.Perm selected := List.perm_insertionSort _ _

/-- The literals of some fields are found exactly if each field is a single string. -/
theorem literals_eq_some {fields : List String} {key : Identity} :
    literals event fields = some key ↔
      key.map (·.1) = fields ∧ ∀ f ∈ key, get event f.1 = some (.string f.2) := by
  induction fields generalizing key with
  | nil =>
      simp only [literals, List.mapM_nil, List.map_eq_nil_iff]
      exact ⟨fun h => by cases h; simp, fun h => by rw [h.1]; rfl⟩
  | cons field fields ih =>
      have hstep : literals event (field :: fields) = (match get event field with
          | some (.string s) => some (field, s)
          | _ => none).bind fun f => (literals event fields).map (f :: ·) := by
        rw [literals, List.mapM_cons]
        split <;> simp [literals, Option.map_eq_bind]
      rw [hstep]
      cases key with
      | nil => split <;> simp
      | cons f key =>
          obtain ⟨name, s⟩ := f
          simp only [List.map_cons, List.cons.injEq, List.forall_mem_cons]
          split
          next s' hget =>
            simp only [Option.bind_some, Option.map_eq_some_iff, List.cons.injEq, Prod.mk.injEq]
            constructor
            · rintro ⟨key', hkey, ⟨rfl, rfl⟩, rfl⟩
              exact ⟨⟨rfl, (ih.mp hkey).1⟩, hget, (ih.mp hkey).2⟩
            · rintro ⟨⟨rfl, hnames⟩, hvalue, hvalues⟩
              have : s' = s := by simpa [hget] using hvalue
              exact ⟨key, ih.mpr ⟨hnames, hvalues⟩, ⟨rfl, this⟩, rfl⟩
          next hnone =>
            simp only [Option.bind_none, reduceCtorEq, false_iff]
            rintro ⟨⟨rfl, -⟩, hvalue, -⟩
            exact hnone s hvalue

/-- A lookup under some fields finds a scope exactly if they are the scope's and have its values. -/
theorem lookup_iff (hsound : scopes.Sound) (hscope : scope ∈ scopes) {fields : List String} :
    (literals event fields).bind scopes.get = some scope.scope_id ↔
      fields = scope.key.map (·.1) ∧ literals event fields = some scope.key := by
  constructor
  · intro h
    obtain ⟨key, hkey, hget⟩ := Option.bind_eq_some_iff.mp h
    obtain ⟨found, hfound, rfl, hid⟩ := Scopes.get_eq_some hget
    obtain rfl := hsound.eq_of_id hfound hscope hid
    exact ⟨(literals_eq_some.mp hkey).1.symm, hkey⟩
  · rintro ⟨-, hkey⟩
    rw [hkey]
    exact hsound.get_key hscope

theorem append_row_of_ne {scope_rows : String → List Members} {found : Option String} {scope_id : String}
    (h : found ≠ some scope_id) : append_row scope_rows row found scope_id = scope_rows scope_id := by
  cases found with
  | none => rfl
  | some other => exact Function.update_of_ne (fun heq => h (congrArg some heq.symm)) _ _

/-- Looking a row up adds it to the scopes it belongs to, by induction on the shapes. -/
theorem indexRow_eq (hsound : scopes.Sound) (hscope : scope ∈ scopes) {shapes : List (List String)}
    (hshapes : shapes.Nodup) (scope_rows : String → List Members) (row : Members) :
    indexRow scopes shapes scope_rows row scope.scope_id = scope_rows scope.scope_id ++
      if scope.key.map (·.1) ∈ shapes ∧ literals (eventOf row) (scope.key.map (·.1)) = some scope.key then [row] else [] := by
  induction shapes generalizing scope_rows with
  | nil => simp [indexRow]
  | cons fields shapes ih =>
      obtain ⟨hnew, hshapes⟩ := List.nodup_cons.mp hshapes
      rw [indexRow, List.foldl_cons]
      show indexRow scopes shapes _ row scope.scope_id = _
      rw [ih hshapes]
      have hlookup := @lookup_iff scopes scope (eventOf row) hsound hscope fields
      by_cases hfound : (literals (eventOf row) fields).bind scopes.get = some scope.scope_id
      · obtain ⟨rfl, hkey⟩ := hlookup.mp hfound
        rw [hfound, if_neg fun h => hnew h.1, if_pos ⟨List.mem_cons_self, hkey⟩, List.append_nil]
        exact Function.update_self ..
      · rw [append_row_of_ne hfound]
        congr 1
        refine if_congr (and_congr_left fun hkey => ?_) rfl rfl
        rw [List.mem_cons]
        exact ⟨.inr, fun h => h.resolve_left fun heq => hfound (hlookup.mpr ⟨heq.symm, heq ▸ hkey⟩)⟩

/-- **Index.** A scope has the rows that carry its key, in their order. -/
theorem index_eq (hsound : scopes.Sound) (hscope : scope ∈ scopes) (rows : List Members) :
    index scopes rows scope.scope_id =
      rows.filter fun row => literals (eventOf row) (scope.key.map (·.1)) = some scope.key := by
  have hshape : scope.key.map (·.1) ∈ scopes.shapes := List.mem_dedup.mpr (List.mem_map_of_mem hscope)
  have hnodup : scopes.shapes.Nodup := List.nodup_dedup _
  have hloop : ∀ scope_rows : String → List Members,
      rows.foldl (indexRow scopes scopes.shapes) scope_rows scope.scope_id = scope_rows scope.scope_id ++
        rows.filter fun row => literals (eventOf row) (scope.key.map (·.1)) = some scope.key := by
    induction rows with
    | nil => simp
    | cons row rows ih =>
        intro scope_rows
        rw [List.foldl_cons, ih, indexRow_eq hsound hscope hnodup, List.filter_cons]
        by_cases hkey : literals (eventOf row) (scope.key.map (·.1)) = some scope.key
        · simp [hkey, hshape]
        · simp [hkey]
  simpa [index] using hloop fun _ => []

/-! ### The rows of the timeline -/

/-- Retained raw records have ids, and no two the same. -/
structure UniqueIds (py : Interpreter) (evidence : List Members) : Prop where
  present : ∀ record ∈ evidence.filter is_raw_event, (get record "evidence_id").isSome
  distinct : ((evidence.filter is_raw_event).map (evidence_id py)).Nodup

/-- Does a record have a selected result? -/
def hasResult (record : Members) : Bool :=
  match get record "selected_result" with
  | some (.object _) => true
  | _ => false

theorem mem_observations {o : Observation} (h : o ∈ observations py evidence) :
    o.2 ∈ evidence.filter is_raw_event ∧ o.1 = raw_event_time py o.2 := by
  have hmem := (List.perm_insertionSort _ _).mem_iff.mp h
  obtain ⟨record, hrecord, rfl⟩ := List.mem_map.mp hmem
  exact ⟨hrecord, rfl⟩

/-- A reference leads back to its record, if that can be selected. -/
theorem lastBy_reference (hids : UniqueIds py evidence) {record : Members} (hrecord : record ∈ evidence.filter is_raw_event) :
    lastBy py (selectable evidence) "evidence_id" (textOr py record "evidence_id") =
      if hasResult record then some record else none := by
  obtain ⟨id, hid⟩ := Option.isSome_iff_exists.mp (hids.present record hrecord)
  have htext : textOr py record "evidence_id" = evidence_id py record := by
    simp [textOr, evidence_id, value, hid]
  have heq : ∀ found ∈ (selectable evidence).filter fun r => py.text (value r "evidence_id") = evidence_id py record,
      found = record ∧ hasResult found = true := by
    intro found hfound
    obtain ⟨hselectable, hfoundid⟩ := List.mem_filter.mp hfound
    obtain ⟨hmem, hraw⟩ := List.mem_filter.mp hselectable
    obtain ⟨hraw, hresult⟩ := Bool.and_eq_true_iff.mp hraw
    exact ⟨List.inj_on_of_nodup_map hids.distinct (List.mem_filter.mpr ⟨hmem, hraw⟩) hrecord
      (of_decide_eq_true hfoundid), hresult⟩
  rw [htext, lastBy]
  split
  next hresult =>
    have hmem : record ∈ (selectable evidence).filter fun r => py.text (value r "evidence_id") = evidence_id py record := by
      obtain ⟨hmem, hraw⟩ := List.mem_filter.mp hrecord
      exact List.mem_filter.mpr ⟨List.mem_filter.mpr ⟨hmem, Bool.and_eq_true_iff.mpr ⟨hraw, hresult⟩⟩, by simp [evidence_id]⟩
    rw [List.getLast?_eq_some_getLast (List.ne_nil_of_mem hmem)]
    exact congrArg some (heq _ (List.getLast_mem _)).1
  next hresult =>
    rw [List.getLast?_eq_none_iff, List.eq_nil_iff_forall_not_mem]
    intro found hfound
    obtain ⟨rfl, hfoundresult⟩ := heq found hfound
    exact hresult hfoundresult

theorem timelineRows_eq (hids : UniqueIds py evidence) (queries : List Members) :
    timelineRows py evidence ((observations py evidence).map (timeline_reference py queries)) =
      ((observations py evidence).map (·.2)).filter hasResult := by
  have hall : ∀ os : List Observation, (∀ o ∈ os, o.2 ∈ evidence.filter is_raw_event) →
      timelineRows py evidence (os.map (timeline_reference py queries)) = (os.map (·.2)).filter hasResult := by
    intro os hos
    induction os with
    | nil => rfl
    | cons o os ih =>
        obtain ⟨ho, hos⟩ := List.forall_mem_cons.mp hos
        have hlast : lastBy py (selectable evidence) "evidence_id" (timeline_reference py queries o).evidence_id =
            if hasResult o.2 then some o.2 else none := lastBy_reference hids ho
        rw [timelineRows, List.map_cons, List.filterMap_cons, hlast, List.map_cons, List.filter_cons, ← ih hos]
        cases hasResult o.2 <;> rfl
  exact hall _ fun o ho => (mem_observations ho).1

/-- An event carries an identity exactly if its literals are the key. -/
theorem carries_iff (selected : Identity) (record : Members) :
    carries selected record = true ↔
      hasResult record = true ∧ literals (eventOf record) (selected.key.map (·.1)) = some selected.key := by
  have hkey : literals (eventOf record) (selected.key.map (·.1)) = some selected.key ↔
      ∀ f ∈ selected, get (eventOf record) f.1 = some (.string f.2) := by
    simp only [literals_eq_some, true_and]
    exact forall_congr' fun f => by rw [(key_perm selected).mem_iff]
  rw [hkey]
  unfold carries hasResult eventOf
  cases get record "selected_result" with
  | none => simp
  | some result => cases result <;> simp

/-- What the index has under a scope. -/
theorem index_observations (hids : UniqueIds py evidence) (hsound : scopes.Sound) (hscope : scope ∈ scopes)
    (queries : List Members) :
    index scopes (timelineRows py evidence ((observations py evidence).map (timeline_reference py queries)))
        scope.scope_id =
      ((observations py evidence).map (·.2)).filter (carries scope.identity_fields) := by
  rw [index_eq hsound hscope, timelineRows_eq hids, List.filter_filter]
  refine List.filter_congr fun record _ => ?_
  rw [Bool.eq_iff_iff, carries_iff, ← hsound.keyed scope hscope]
  simp [and_comm]

/-- It is what a scan finds. -/
theorem scan_perm (evidence : List Members) (identity : Identity) :
    (((observations py evidence).map (·.2)).filter (carries identity)).Perm (scan evidence identity) := by
  have hperm : ((observations py evidence).map (·.2)).Perm (evidence.filter is_raw_event) := by
    have := (List.perm_insertionSort (fun a b : Observation => earlier a.1 b.1 = true)
      ((evidence.filter is_raw_event).map fun record => (raw_event_time py record, record))).map (·.2)
    simpa [observations, Function.comp_def] using this
  have := hperm.filter (carries identity)
  rwa [List.filter_filter, show (fun a => carries identity a && is_raw_event a) = fun record =>
    is_raw_event record && carries identity record from funext fun _ => Bool.and_comm ..] at this

/-! ### Periods -/

/-- The known times of the rows of a scope are in order. -/
theorem times_sorted (evidence : List Members) (p : Members → Bool) :
    ((((observations py evidence).map (·.2)).filter p).filterMap (raw_event_time py)).Pairwise (· ≤ ·) := by
  rw [List.pairwise_filterMap]
  refine List.Pairwise.filter _ (List.pairwise_map.mpr ?_)
  refine (@observations_sorted py evidence).imp_of_mem fun {a b} ha hb hab t ht t' ht' => ?_
  rw [(mem_observations ha).2, (mem_observations hb).2, ht, ht'] at hab
  exact of_decide_eq_true hab

theorem inPeriod_append (ps qs : List Period) (name : String) :
    inPeriod (ps ++ qs) name = inPeriod ps name + inPeriod qs name := by simp [inPeriod]

theorem inPeriod_slice (times : List Time) (period name : String) (first last : Nat) :
    inPeriod (slice times period first last) name = if period = name then last - first else 0 := by
  unfold slice
  split
  next hlt => by_cases hname : period = name <;> simp [inPeriod, hname]
  next hge =>
    have : last - first = 0 := by omega
    simp [inPeriod, this]

theorem inPeriod_unrelated (count : Nat) (name : String) :
    inPeriod (unrelated count) name = if "unknown" = name then count else 0 := by
  unfold unrelated
  split
  next hzero => simp [inPeriod, hzero]
  next => by_cases hname : "unknown" = name <;> simp [inPeriod, hname]

theorem periodOf_some (anchor : Time) (stamp : Option Time) :
    (periodOf (some anchor) stamp = "before" ↔ stamp.any (· < anchor) = true) ∧
    (periodOf (some anchor) stamp = "at" ↔ stamp.any (· = anchor) = true) ∧
    (periodOf (some anchor) stamp = "after" ↔ stamp.any (anchor < ·) = true) ∧
    (periodOf (some anchor) stamp = "unknown" ↔ stamp.isNone = true) := by
  cases stamp with
  | none => simp [periodOf]
  | some stamp =>
      rcases lt_trichotomy stamp anchor with hlt | rfl | hgt
      · simp [periodOf, hlt, hlt.not_gt, hlt.ne]
      · simp [periodOf]
      · simp [periodOf, hgt, hgt.not_gt, hgt.ne']

/-- What the periods count. -/
theorem inPeriod_periods (hsorted : (rows.filterMap (raw_event_time py)).Pairwise (· ≤ ·)) (anchor : Option Time)
    {name : String} (hname : name ∈ ["before", "at", "after", "unknown"]) :
    inPeriod (periods py anchor rows) name =
      rows.countP fun row => periodOf anchor (raw_event_time py row) = name := by
  cases anchor with
  | none =>
      have hall : rows.countP (fun row => periodOf none (raw_event_time py row) = name) =
          if "unknown" = name then rows.length else 0 := by
        by_cases hunknown : "unknown" = name <;> simp [periodOf, hunknown]
      rw [hall]
      exact inPeriod_unrelated _ _
  | some anchor =>
      have hcount : ∀ p : Time → Bool, (rows.filterMap (raw_event_time py)).countP p =
          rows.countP fun row => (raw_event_time py row).any p := fun p => by
        rw [List.countP_filterMap]
        exact List.countP_congr fun row _ => by cases raw_event_time py row <;> simp
      have hunknown : rows.length - (rows.filterMap (raw_event_time py)).length =
          rows.countP fun row => (raw_event_time py row).isNone := by
        have hsum := List.length_eq_countP_add_countP (fun row => (raw_event_time py row).isSome) (l := rows)
        have hnone : rows.countP (fun row => decide ¬(raw_event_time py row).isSome = true) =
            rows.countP fun row => (raw_event_time py row).isNone :=
          List.countP_congr fun row _ => by simp
        rw [List.length_filterMap_eq_countP]
        omega
      simp only [periods, inPeriod_append, inPeriod_slice, inPeriod_unrelated, (bisect_right_sub_left hsorted anchor).1,
        length_sub_bisect_right hsorted anchor, hunknown, Nat.sub_zero]
      rw [bisect_left_eq hsorted, hcount, hcount, hcount]
      simp only [List.mem_cons, List.not_mem_nil, or_false] at hname
      have hperiod := fun row => periodOf_some anchor (raw_event_time py row)
      rcases hname with rfl | rfl | rfl | rfl <;>
        simp only [String.reduceEq, if_true, if_false, Nat.add_zero, Nat.zero_add]
      · exact List.countP_congr fun row _ => by simpa using (hperiod row).1.symm
      · exact List.countP_congr fun row _ => by simpa using (hperiod row).2.1.symm
      · exact List.countP_congr fun row _ => by simpa using (hperiod row).2.2.1.symm
      · exact List.countP_congr fun row _ => by simpa using (hperiod row).2.2.2.symm

/-- Every record is in one period. -/
theorem periods_total (hsorted : (rows.filterMap (raw_event_time py)).Pairwise (· ≤ ·)) (anchor : Option Time) :
    ((periods py anchor rows).map (·.raw_record_count)).sum = rows.length := by
  have hslice : ∀ times period first last,
      ((slice times period first last).map (·.raw_record_count)).sum = last - first := by
    intro times period first last
    unfold slice
    split
    · simp
    · simp
      omega
  have hunrelated : ∀ count, ((unrelated count).map (·.raw_record_count)).sum = count := by
    intro count
    unfold unrelated
    split <;> simp
    omega
  cases anchor with
  | none => exact hunrelated _
  | some anchor =>
      have hle := (bisect_right_sub_left hsorted anchor).2
      have hlength : bisect_right (rows.filterMap (raw_event_time py)) anchor ≤
          (rows.filterMap (raw_event_time py)).length := by
        rw [bisect_right_eq hsorted]
        exact List.countP_le_length
      have hrows : (rows.filterMap (raw_event_time py)).length ≤ rows.length := List.length_filterMap_le _ _
      simp only [periods, List.map_append, List.sum_append, hslice, hunrelated]
      omega

/-! ### Agreement -/

theorem describeScope_eq_ok {queries : List Members} {activity : ScopeActivity}
    (h : describeScope py queries rows scope = .ok activity) :
    activity.scope_id = scope.scope_id ∧ activity.identity_fields = scope.identity_fields ∧
      activity.evidence_ids = rows.map (evidence_id py) ∧ activity.raw_record_count = rows.length := by
  obtain ⟨evidence_ids, hids, h⟩ := bind_eq_ok.mp h
  obtain ⟨fields, -, h⟩ := bind_eq_ok.mp h
  obtain rfl := Except.ok.inj h
  have hall : List.Forall₂ (fun row id => evidence_id py row = id) rows evidence_ids := by
    refine (forall₂_of_mapM hids).imp fun row id hid => ?_
    obtain ⟨j, hj, hid⟩ := bind_eq_ok.mp hid
    unfold item at hj
    split at hj
    next j' hget =>
      cases hj
      rw [evidence_id, value, hget]
      exact Except.ok.inj hid
    next => cases hj
  have heq : rows.map (evidence_id py) = evidence_ids := by
    rw [← List.forall₂_eq_eq_eq]
    exact List.forall₂_map_left_iff.mpr hall
  exact ⟨rfl, rfl, heq.symm, rfl⟩

/-- What a successful call has read and built. -/
theorem retained_lead_activity_eq_ok {results : Members} {leadCoverage : List LeadCoverage} {activity : Activity}
    (h : retained_lead_activity py results leadCoverage = .ok activity)
    (hevidence : resultList results "evidence" = .ok evidence) :
    activity = ⟨[], []⟩ ∨ ∃ queries found scopes,
      let selected := selectScopes py evidence (leadsOf leadCoverage)
      let scope_rows := index selected.1
        (timelineRows py evidence ((observations py evidence).map (timeline_reference py queries)))
      selected.1.mapM (fun scope => describeScope py found (scope_rows scope.scope_id) scope) = .ok scopes ∧
      activity = {
        leads := selected.2.map fun s => {
          lead := s.lead
          anchor_event_time_utc := (anchor py evidence s.lead).map isoformat
          scopes := s.scope_ids.map fun scope_id =>
            (scope_id, periods py (anchor py evidence s.lead) (scope_rows scope_id))
          limitation := s.limitation }
        scopes } := by
  unfold retained_lead_activity at h
  dsimp only at h
  split at h
  next => exact .inl (Except.ok.inj h).symm
  next =>
    right
    rw [hevidence, ok_bind] at h
    obtain ⟨timeline, htimeline, h⟩ := bind_eq_ok.mp h
    obtain ⟨found, -, h⟩ := bind_eq_ok.mp h
    obtain ⟨scopes, hscopes, h⟩ := bind_eq_ok.mp h
    rw [retained_timeline, hevidence] at htimeline
    obtain ⟨queries, -, htimeline⟩ := bind_eq_ok.mp htimeline
    obtain rfl := Except.ok.inj htimeline
    exact ⟨queries, found, scopes, hscopes, (Except.ok.inj h).symm⟩

/-- A lead, a later record of its process, and a record of another one. -/
def sampleProcess : List Members :=
  [("lead", "guid-1", "2026-01-01T10:00:00Z"), ("later", "guid-1", "unknown"), ("other", "guid-2", "unknown")].map
    fun (evidence_id, process_guid, event_time_utc) =>
      [("evidence_id", .string evidence_id), ("event_time_utc", .string event_time_utc),
        ("selected_result", .object [("host", .string "host-1"), ("process_guid", .string process_guid)])]

/-- The coverage of the lead. -/
def sampleLead : LeadCoverage := ⟨["lead"], [("process_guid", "guid-1"), ("host", "host-1")]⟩

end

end EvidenceLookup

end ThreatHunting
