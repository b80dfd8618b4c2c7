import ThreatHunting.Services.ThreatIntel

/-!
# ThreatHunting.Services.LeadSessions

The advisory leads of `services/evidence.py` and the sessions they name: `advisory_lead_groups`,
`retained_lead_session_filters`, and the rewriting of a search for all of these sessions,
`widen_spl_for_lead_sessions`. Whether a search covers a session is decided by its text alone: one of the
conjunctions of the session's fields has to stand in it, once runs of whitespace are squeezed. A session value that holds
such a run is therefore never covered, not even by the search that was widened for it.
-/

namespace ThreatHunting

open Fallible Rewriting

namespace LeadSessions

open EvidenceLookup (raw_event_time is_raw_event earlier value)
open ModelOutput (Members get)
open Spl (parse_spl Segment quotedTail atWordStart)
open ThreatIntel (Raised IocComparison)

/-- What the module takes from the interpreter. -/
structure Interpreter extends EvidenceLookup.Interpreter where
  json : Grounding.Reader
  /-- The nested calls that flattening may make. -/
  calls : Nat
  /-- `str.casefold` of a character above ASCII. -/
  fold : Char → Text

/-- `str.casefold`. -/
def Interpreter.casefold (py : Interpreter) (cs : Text) : Text :=
  cs.flatMap fun c => if isAscii c then [asciiLower c] else py.fold c

variable (py : Interpreter)

/-! ### Leads -/

/-- Field names with their values. -/
abbrev Identity := List (String × Text)

/-- A record with what it has in common with the advisory. -/
abbrev Compared := Members × IocComparison

/-- What a group of leads is known by: its identity, or a record that stands alone. -/
inductive LeadKey
  | identity (fields : Identity)
  | record (evidence_id : String)
  deriving DecidableEq

/-- A group of `advisory_lead_groups`. -/
structure Lead where
  lead_evidence_id : String
  identity_fields : Identity
  evidence_ids : List String
  deriving DecidableEq

/-- The fields that identify a process or a session. -/
def identityFields : List String := ["host", "process_guid", "user", "session_id"]

/-- The value of an identity field: a text that is neither blank nor a word for a missing value. -/
def identityValue (event : Members) (field : String) : Option Text :=
  match get event field with
  | some (.string s) =>
      if (strip s.toList).isEmpty || py.casefold s.toList ∈ ["unknown", "null", "none"].map String.toList then none
      else some s.toList
  | _ => none

/-- `identity`. -/
def identityOf (event : Members) : Identity :=
  identityFields.filterMap fun field => (identityValue py event field).map (field, ·)

/-- `ambiguous`: an identity field is there without such a value. -/
def ambiguous (event : Members) : Bool :=
  identityFields.any fun field => (get event field).isSome && (identityValue py event field).isNone

/-- `key`. -/
def leadKey (event : Members) (evidence_id : String) : LeadKey :=
  if !ambiguous py event && ["host", "process_guid"].all fun field => (identityValue py event field).isSome then
    .identity (identityOf py event)
  else .record evidence_id

/-- `row.get("selected_result", {})`, which must have a `get`. -/
def eventOf (row : Members) : Except Raised Members :=
  match get row "selected_result" with
  | none => .ok []
  | some (.object event) => .ok event
  | some _ => .error .attribute_error

/-- `str(row["evidence_id"])`. -/
def evidenceId (row : Members) : Except Raised String :=
  match get row "evidence_id" with
  | some id => .ok (py.text id)
  | none => .error .key_error

/-- The items of `row.get("duplicate_references", [])`; the items of a text or a dictionary are texts. -/
def references (row : Members) : Except Raised (List Json) :=
  match get row "duplicate_references" with
  | none => .ok []
  | some (.array items) => .ok items
  | some (.object ms) => .ok (ms.map fun m => .string m.1)
  | some (.string s) => .ok (s.toList.map fun c => .string (String.singleton c))
  | some _ => .error .type_error

/-- `str(origin["evidence_id"])`. -/
def referenceId : Json → Except Raised String
  | .object origin => evidenceId py origin
  | _ => .error .type_error

/-- Is the record a raw one that the advisory names something of? -/
def isLead (record : Compared) : Bool := is_raw_event record.1 && record.2.matched

/-- What one record contributes: the key of its group, and the group it would make alone. -/
def leadOf (record : Compared) : Except Raised (LeadKey × Lead) := do
  let event ← eventOf record.1
  let id ← evidenceId py record.1
  let duplicates ← (← references record.1).mapM (referenceId py)
  return (leadKey py event id, ⟨id, identityOf py event, (id :: duplicates).eraseDups⟩)

/-- Put a record into the groups: into that of its key, which keeps its first record, or into one of its own. -/
def enter (groups : List (LeadKey × Lead)) (record : LeadKey × Lead) : List (LeadKey × Lead) :=
  if groups.any (·.1 = record.1) then
    groups.map fun g =>
      if g.1 = record.1 then
        (g.1, { g.2 with evidence_ids := (g.2.evidence_ids ++ record.2.evidence_ids).eraseDups })
      else g
  else groups ++ [record]

/-- The records by time, those of unknown time last, and in their own order where that does not decide. -/
def byTime (records : List Compared) : List Compared :=
  records.insertionSort fun a b => earlier (raw_event_time py.toInterpreter a.1) (raw_event_time py.toInterpreter b.1) = true

/-- `advisory_lead_groups`. -/
def advisory_lead_groups (records : List Compared) : Except Raised (List Lead) := do
  let leads ← ((byTime py records).filter isLead).mapM (leadOf py)
  return (leads.foldl enter []).map (·.2)

/-! ### Sessions -/

/-- A session filter: the fields of `_LEAD_SESSION_FIELDS` it has. -/
structure LeadSession where
  host : Option Text
  user : Option Text
  session_id : Option Text
  deriving DecidableEq

/-- The fields a session has, with their values. -/
def LeadSession.items (session : LeadSession) : List (Text × Text) :=
  [("host", session.host), ("user", session.user), ("session_id", session.session_id)].filterMap fun field =>
    field.2.map (field.1.toList, ·)

/-- The value of a field, unless it is blank. -/
def sessionValue (identity : Identity) (field : String) : Option Text :=
  (identity.lookup field).filter fun v => !(strip v).isEmpty

/-- `session_filter`. -/
def sessionOf (identity : Identity) : LeadSession where
  host := sessionValue identity "host"
  user := sessionValue identity "user"
  session_id := sessionValue identity "session_id"

/-- `retained_lead_session_filters`. -/
def retained_lead_session_filters (leads : List Lead) : List LeadSession :=
  ((leads.map fun lead => sessionOf lead.identity_fields).filter (·.session_id.isSome)).eraseDups

/-! ### Searches for sessions -/

/-- `question_requires_all_lead_coverage`. -/
def question_requires_all_lead_coverage (question : Text) : Bool :=
  let normalized := py.casefold question
  let signals := fun words : List String => words.any fun word => word.toList <:+: normalized
  signals ["each lead", "all leads", "every lead", "for each endpoint lead"] ||
    (signals ["related"] && signals ["host", "user", "session", "process", "ip"] &&
      signals ["authentication", "auth", "logon", "logoff", "dns", "network", "connection", "communicat", "spread"])

/-- A character as it is escaped in a literal. -/
def escape (c : Char) : Text := if c = '\\' ∨ c = '"' then ['\\', c] else [c]

/-- `spl_literal`. -/
def spl_literal (value : Text) : Text := '"' :: value.flatMap escape ++ ['"']

/-- `field=literal`. -/
def predicate (field : Text × Text) : Text := field.1 ++ '=' :: spl_literal field.2

/-- `({' AND '.join(predicates)})`. -/
def conjoined (predicates : List Text) : Text := '(' :: join " AND " predicates ++ [')']

/-- `_lead_session_and_branch`. -/
def lead_session_and_branch (session : LeadSession) : Text := conjoined (session.items.map predicate)

/-- `lead_session_spl_disjunction`. -/
def lead_session_spl_disjunction (sessions : List LeadSession) : Except String Text :=
  let branches := (sessions.filter (·.session_id.isSome)).map lead_session_and_branch
  if 64 < branches.length then .error "too many lead sessions for one bounded query"
  else match branches with
    | [] => .error "no session-scoped advisory leads"
    | [branch] => .ok branch
    | branches => .ok ('(' :: join " OR " branches ++ [')'])

/-- `re.sub(r"\s+", " ", spl).strip()`. -/
def normalizeSpaces (spl : Text) : Text := strip (squeeze isSpace ' ' spl)

/-- `spl_covers_lead_session`. -/
def spl_covers_lead_session (spl : Text) (session : LeadSession) : Bool :=
  session.session_id.isSome &&
    (lead_session_and_branch session <:+: normalizeSpaces spl ||
      (session.items.map predicate).permutations.any fun ordering => conjoined ordering <:+: normalizeSpaces spl)

/-- `spl_covers_all_lead_sessions`. -/
def spl_covers_all_lead_sessions (spl : Text) (sessions : List LeadSession) : Bool :=
  sessions.all (spl_covers_lead_session spl)

/-! ### Widening -/

/-- `_LEAD_IDENTITY_FIELDS` in front, ignoring case; what follows. -/
def identityField (cs : Text) : Option Text :=
  ((takeKeyword "host".toList cs).or ((takeKeyword "user".toList cs).or
    ((takeKeyword "session_id".toList cs).or (takeKeyword "process_guid".toList cs)))).map (·.2)

/-- `field\s*=\s*"(?:\\.|[^"\\])*"`; what follows. -/
def identityPredicate (cs : Text) : Option Text :=
  match (identityField cs).map skipSpaces with
  | some ('=' :: rest) =>
      match skipSpaces rest with
      | '"' :: rest => (quotedTail '"' rest).map (·.2)
      | _ => none
  | _ => none

/-- `_IDENTITY_EQ`. -/
def identityEq : Pattern Char Unit := fun prev cs =>
  if atWordStart py.db prev then (identityPredicate cs).map fun rest => ((), rest) else none

/-- `\s+` in front; what follows. -/
def someSpaces : Text → Option Text
  | c :: cs => if isSpace c then some (skipSpaces cs) else none
  | [] => none

/-- `(?:(?:AND|OR)\s+field\s*=\s*"…"\s*)*\)`, with the number of rounds so far and at most so many more. -/
def moreIdentities : Nat → Nat → Text → Option Text
  | rounds, _, ')' :: rest => if rounds = 0 then none else some rest
  | _, 0, _ => none
  | rounds, fuel + 1, cs =>
      match ((takeKeyword "and".toList cs).or (takeKeyword "or".toList cs)).bind fun m => someSpaces m.2 with
      | none => none
      | some rest =>
          match identityPredicate rest with
          | none => none
          | some rest => moreIdentities (rounds + 1) fuel (skipSpaces rest)

/-- `_IDENTITY_GROUP`. -/
def identityGroup : Pattern Char Unit
  | _, '(' :: cs =>
      match identityPredicate (skipSpaces cs) with
      | none => none
      | some rest => (moreIdentities 0 rest.length (skipSpaces rest)).map fun rest => ((), rest)
  | _, _ => none

/-- `\(\s*\)`. -/
def emptyGroup : Pattern Char Unit
  | _, '(' :: cs =>
      match skipSpaces cs with
      | ')' :: rest => some ((), rest)
      | _ => none
  | _, _ => none

/-- `\s+word\s+word\s+`, ignoring case. -/
def doubled (word : String) : Pattern Char Unit := fun _ cs =>
  let next := fun (rest : Text) => (takeKeyword word.toList rest).bind fun m => someSpaces m.2
  (((someSpaces cs).bind next).bind next).map fun rest => ((), rest)

/-- `\s{2,}`. -/
def longRun : Pattern Char Unit
  | _, c :: d :: cs => if isSpace c && isSpace d then some ((), skipSpaces cs) else none
  | _, _ => none

/-- `_strip_lead_identity_predicates`. -/
def strip_lead_identity_predicates (search_args : Text) : Text :=
  let cleaned := sub identityGroup [' '] search_args
  let cleaned := sub (identityEq py) [' '] cleaned
  let cleaned := sub emptyGroup [' '] cleaned
  let cleaned := sub (doubled "and") " AND ".toList cleaned
  let cleaned := sub (doubled "or") " OR ".toList cleaned
  strip (sub longRun [' '] cleaned)

/-- The arguments of the widened search. -/
def widenedSearch (search_args disjunction : Text) : Text :=
  let stripped := strip_lead_identity_predicates py search_args
  if stripped.isEmpty then disjunction else strip (stripped ++ " AND ".toList ++ disjunction)

/-- `widen_spl_for_lead_sessions`, or the message of its `ValueError`; `parse_spl` raises nothing else. -/
def widen_spl_for_lead_sessions (spl : Text) (sessions : List LeadSession) : Except String Text :=
  match parse_spl py.db spl with
  | .error (.valueError message) => .error message
  | .error .stopIteration => .error "StopIteration"
  | .ok parsed => do
      let disjunction ← lead_session_spl_disjunction sessions
      return join " | " (rstrip ("search ".toList ++ widenedSearch py parsed.search_expression disjunction) ::
        parsed.command_segments.tail.map Segment.text)

end LeadSessions

end ThreatHunting
