import ThreatHunting.Domain.Common
import ThreatHunting.Lib.Json
import ThreatHunting.Text

/-!
# ThreatHunting.Mcp.Records

What `mcp/authorization.py` reads: rows of reflected tables, whatever their columns are, and
the assertions of a request. A row holds the columns that are not null, since `_row_value`
takes a null column for a missing one; a table knows its columns, since `_lookup_any` does not.
-/

namespace ThreatHunting

namespace Mcp

/-- A column or an assertion. Containers stay JSON. -/
inductive Value
  | text (s : String)
  | int (n : Int)
  | bool (b : Bool)
  | time (t : Instant)
  | json (j : Json)

/-- The value of a JSON value; a null has none. -/
def Value.ofJson : Json → Option Value
  | .null => none
  | .bool b => some (.bool b)
  | .int n => some (.int n)
  | .string s => some (.text s)
  | other => some (.json other)

/-- `bool(value)`. -/
def Value.truthy : Value → Bool
  | .text s => s ≠ ""
  | .int n => n ≠ 0
  | .bool b => b
  | .json (.array []) | .json (.object []) => false
  | .time _ | .json _ => true

/-- `==`: a boolean is an integer, and containers are compared by their canonical text. -/
def Value.same : Value → Value → Bool
  | .text s, .text t => s = t
  | .int m, .int n => m = n
  | .bool b, .bool c => b = c
  | .bool b, .int n | .int n, .bool b => n = if b then 1 else 0
  | .time s, .time t => s = t
  | .json a, .json b => a.canonical.isSome && a.canonical = b.canonical
  | _, _ => false

theorem Value.same_text {v : Value} {s : String} : v.same (.text s) = true ↔ v = .text s := by
  cases v <;> simp [same]

/-- What the checks take from the standard library. -/
structure Runtime where
  /-- `str` of a value that is not a string or an integer. -/
  str : Value → String
  /-- `int`; `none` where it raises. -/
  int : Value → Option Int
  /-- `datetime.fromisoformat`, with `Z` for an offset. -/
  fromisoformat : String → Option Instant
  /-- `json.loads`. -/
  loads : String → Option Json

/-- `str(value)`. -/
def Runtime.text (rt : Runtime) : Value → String
  | .text s => s
  | .int n => toString n
  | other => rt.str other

/-- `str(value).lower()`. -/
def Runtime.lower (rt : Runtime) (v : Value) : Text := ThreatHunting.lower (rt.text v).toList

/-- `_utc`. -/
def Runtime.utc (rt : Runtime) : Value → Option Instant
  | .text s => rt.fromisoformat s
  | .time t => some t
  | _ => none

/-- `_json`. -/
def Runtime.json (rt : Runtime) : Value → Option Json
  | .json j => some j
  | .text s => rt.loads s
  | _ => none

/-! ### Rows and tables -/

/-- The columns of a row that are not null. -/
abbrev Row := List (String × Value)

/-- A column. -/
def Row.get (row : Row) (name : String) : Option Value := (row.find? (·.1 = name)).map (·.2)

/-- `_row_value`: the first of these columns that is not null. -/
def Row.value (row : Row) (names : List String) : Option Value := names.findSome? row.get

/-- `_row_value(row, *names) not in (None, text)`. -/
def Row.contradicts (row : Row) (names : List String) (text : String) : Bool :=
  (row.value names).any fun v => !v.same (.text text)

/-- A row that does not contradict a text records that text, or nothing. -/
theorem Row.value_of_not_contradicts {row : Row} {names : List String} {text : String} {v : Value}
    (h : row.contradicts names text = false) (hv : row.value names = some v) : v = .text text := by
  simpa [Row.contradicts, hv, Value.same_text] using h

/-- A reflected table. -/
structure Table where
  columns : List String
  rows : List Row

/-- The tables by name. -/
abbrev Database := List (String × Table)

/-- `_table`: the first of these tables that exists. -/
def Database.table (db : Database) (candidates : List String) : Option Table :=
  candidates.findSome? fun name => (db.find? (·.1 = name)).map (·.2)

/-- Does the row meet `column == value` for each of these? -/
def Row.meets (row : Row) (conditions : List (String × Value)) : Bool :=
  conditions.all fun c => (row.get c.1).any (·.same c.2)

/-- `_lookup_any`: the one row with these identifiers, among the columns the table has. -/
def Table.lookup (table : Table) (identifiers : List (String × Option Value)) : Option Row :=
  match identifiers.filterMap fun i => if i.1 ∈ table.columns then i.2.map (i.1, ·) else none with
  | [] => none
  | conditions =>
      match table.rows.filter (·.meets conditions) with
      | [row] => some row
      | _ => none

/-- A row found is a row of the table. -/
theorem Table.mem_of_lookup {table : Table} {identifiers : List (String × Option Value)} {row : Row}
    (h : table.lookup identifiers = some row) : row ∈ table.rows := by
  unfold Table.lookup at h
  split at h
  · cases h
  · split at h
    next hrow =>
      cases h
      exact (List.mem_filter.mp (hrow ▸ List.mem_singleton_self row)).1
    next => cases h

/-- What a statement returns of the rows it selects when it limits them and orders none. -/
structure Limit where
  pick : Nat → List Row → List Row
  subperm : ∀ n rows, (pick n rows).Subperm rows
  length : ∀ n rows, (pick n rows).length = min n rows.length

/-- The rows meeting `first` are returned before the others. -/
def Limit.preferring (first : Row → Bool) : Limit where
  pick n rows := (rows.filter first ++ rows.filter (!first ·)).take n
  subperm n rows := (List.take_sublist n _).subperm.trans (List.filter_append_perm first rows).subperm
  length n rows := by
    rw [List.length_take, (List.filter_append_perm first rows).length_eq]

/-! ### Requests -/

/-- The nested sections a request may have, in the order they are searched. -/
def sectionNames : List String := ["scope", "query", "policy", "limits", "capability", "authorization"]

/-- The assertions of a request, at the top and in its sections; a null asserts nothing. -/
structure Request where
  values : Row
  sections : List (String × Row)

namespace Request

variable (request : Request)

/-- A section. -/
def section_ (name : String) : Row := ((request.sections.find? (·.1 = name)).map (·.2)).getD []

/-- `_request_value`. -/
def value (names : List String) : Option Value :=
  names.findSome? fun name =>
    request.values.get name <|> sectionNames.findSome? fun s => (request.section_ s).get name

/-- `str(_request_value(request, …))`. -/
def text (rt : Runtime) (names : List String) : String := ((request.value names).map rt.text).getD "None"

/-- An assertion that is missing or the empty string. -/
def lacks (names : List String) : Bool := (request.value names).all (·.same (.text ""))

end Request

/-! ### Approved scope, limits and policy -/

/-- A `dict` of strings to values, nulls included. -/
abbrev Dict := List (String × Option Value)

/-- `d.get(name)`. -/
def Dict.get (d : Dict) (name : String) : Option Value := (d.find? (·.1 = name)).bind (·.2)

/-- The members of an object; anything else has none. -/
def members : Option Json → Dict
  | some (.object ms) => ms.map fun m => (m.1, Value.ofJson m.2)
  | _ => []

/-- `source` with the columns that are not null under any of their aliases. -/
def withAliases (row : Row) (decode : Value → Value) (source : Dict) (aliases : List (String × List String)) :
    Dict :=
  aliases.filterMap (fun a => (row.value a.2).map fun v => (a.1, some (decode v))) ++ source

/-- `_json(value, default=value)`. -/
def Runtime.decoded (rt : Runtime) (v : Value) : Value := ((rt.json v).bind Value.ofJson).getD v

/-- `_scope`. -/
def Runtime.scope (rt : Runtime) (row : Row) : Dict :=
  withAliases row rt.decoded (members ((row.value ["scope", "approved_scope", "time_scope"]).bind rt.json))
    [("earliest_utc", ["earliest_utc", "earliest", "start_time_utc", "start_utc"]),
      ("latest_utc", ["latest_utc", "latest", "end_time_utc", "end_utc"]),
      ("indexes", ["indexes", "approved_indexes", "index_scope"]),
      ("sourcetypes", ["sourcetypes", "approved_sourcetypes", "sourcetype_scope"]),
      ("requested_fields", ["requested_fields", "fields", "approved_fields"])]

/-- `_limits`. -/
def Runtime.limits (rt : Runtime) (row : Row) : Dict :=
  withAliases row id (members ((row.value ["limits", "enforced_limits", "query_limits"]).bind rt.json))
    [("max_results", ["max_results", "result_limit", "row_limit"]),
      ("max_bytes", ["max_bytes", "byte_limit", "result_byte_limit"]),
      ("timeout_seconds", ["timeout_seconds", "query_timeout_seconds", "timeout"])]

/-- `_policy`. -/
def Runtime.policy (rt : Runtime) (row : Row) : Dict :=
  withAliases row id (members ((row.value ["policy", "query_policy", "policy_snapshot"]).bind rt.json))
    [("version", ["policy_version", "query_policy_version"]),
      ("hash", ["policy_hash", "query_policy_hash", "policy_sha256", "query_policy_sha256"])]

/-- `_same_time`. -/
def Runtime.sameTime (rt : Runtime) (left right : Value) : Bool :=
  match rt.utc left, rt.utc right with
  | some l, some r => l = r
  | _, _ => false

/-- `str` of the items of a list. -/
def Runtime.itemText (rt : Runtime) (item : Json) : String := ((Value.ofJson item).map rt.text).getD "None"

/-- `_norm_list`: distinct texts in order. -/
def Runtime.normList (rt : Runtime) : Value → Option (List String)
  | .text s => some [s]
  | .json (.array items) => some ((items.map rt.itemText).dedup.insertionSort (· ≤ ·))
  | _ => none

end Mcp

end ThreatHunting
