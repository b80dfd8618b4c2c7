import ThreatHunting.Lib.Transactions
import ThreatHunting.Lib.Json
import ThreatHunting.Domain.Common
import ThreatHunting.Services.Timestamps

/-!
# ThreatHunting.Services.Evidence

`NormalizedEvidence` and `EvidenceRepository` of `services/evidence.py`: a retained record, the
envelope its SHA-256 is computed from, the columns it is stored in and how it is read back, and
`save`, which returns the stored record of the same source row if there is one.

The SHA-256 of a canonical JSON text is a function of the JSON value. `Digest` is the type of
its results, that is of the texts that `validate_sha256` accepts.
-/

namespace ThreatHunting

namespace Evidence

open Transactions Fallible
open EvidenceLookup (Utc isoformat isoformat_injective isoformat_ne_unknown)

/-- `EvidenceKindValue`. -/
inductive EvidenceKind
  | raw_event | aggregate_row
  deriving DecidableEq, Repr

def EvidenceKind.text : EvidenceKind → String
  | raw_event => "raw_event"
  | aggregate_row => "aggregate_row"

/-- A text as an `EvidenceKindValue`. -/
def EvidenceKind.ofText? : String → Option EvidenceKind
  | "raw_event" => some raw_event
  | "aggregate_row" => some aggregate_row
  | _ => none

/-- A retained count does not exceed a known source count. -/
def Within : Option Nat → Option Nat → Prop
  | some retained, some source => retained ≤ source
  | _, _ => True

instance : ∀ retained source, Decidable (Within retained source)
  | some _, some _ => inferInstanceAs (Decidable (_ ≤ _))
  | none, _ | some _, none => isTrue trivial

/-- `TruncationMetadata`. -/
structure TruncationMetadata where
  truncated : Bool := false
  reason : String := "unknown"
  source_row_count : Option Nat := none
  retained_row_count : Option Nat := none
  source_byte_count : Option Nat := none
  retained_byte_count : Option Nat := none
  rows : Within retained_row_count source_row_count := by trivial
  bytes : Within retained_byte_count source_byte_count := by trivial
  explained : truncated = true → reason ≠ "unknown" := by decide

namespace TruncationMetadata

def count : Option Nat → Json
  | none => .null
  | some n => .int n

/-- `model_dump(mode="json")`. -/
def model_dump (t : TruncationMetadata) : Json :=
  .object [("truncated", .bool t.truncated), ("reason", .string t.reason),
    ("source_row_count", count t.source_row_count), ("retained_row_count", count t.retained_row_count),
    ("source_byte_count", count t.source_byte_count), ("retained_byte_count", count t.retained_byte_count)]

/-- A `StrictInt | None` that is not negative. -/
def readCount : Option Json → Option (Option Nat)
  | none | some .null => some none
  | some (.int (.ofNat n)) => some (some n)
  | _ => none

def readBool : Option Json → Option Bool
  | none => some false
  | some (.bool b) => some b
  | _ => none

def readText : Option Json → Option String
  | none => some "unknown"
  | some (.string s) => some s
  | _ => none

def fieldNames : List String :=
  ["truncated", "reason", "source_row_count", "retained_row_count", "source_byte_count", "retained_byte_count"]

/-- `model_validate` of a JSON value. -/
def model_validate : Json → Option TruncationMetadata
  | .object ms => do
      if !ms.all fun m => m.1 ∈ fieldNames then none
      let truncated ← readBool (ms.lookup "truncated")
      let reason ← readText (ms.lookup "reason")
      let source_row_count ← readCount (ms.lookup "source_row_count")
      let retained_row_count ← readCount (ms.lookup "retained_row_count")
      let source_byte_count ← readCount (ms.lookup "source_byte_count")
      let retained_byte_count ← readCount (ms.lookup "retained_byte_count")
      if h : Within retained_row_count source_row_count ∧ Within retained_byte_count source_byte_count ∧
          (truncated = true → reason ≠ "unknown") then
        some { truncated, reason, source_row_count, retained_row_count, source_byte_count, retained_byte_count
               rows := h.1, bytes := h.2.1, explained := h.2.2 }
      else none
  | _ => none

theorem readCount_count (n : Option Nat) : readCount (some (count n)) = some n := by
  cases n <;> rfl

/-- The metadata is read back from its column. -/
theorem model_validate_dump (t : TruncationMetadata) : model_validate t.model_dump = some t := by
  have hnames : ([("truncated", Json.bool t.truncated), ("reason", .string t.reason),
      ("source_row_count", count t.source_row_count), ("retained_row_count", count t.retained_row_count),
      ("source_byte_count", count t.source_byte_count),
      ("retained_byte_count", count t.retained_byte_count)].all fun m => m.1 ∈ fieldNames) = true := by
    simp [fieldNames]
  simp only [model_dump, model_validate, hnames]
  simpa [List.lookup, readCount_count, readBool, readText, t.rows, t.bytes] using t.explained

end TruncationMetadata

/-! ### Records and their envelopes -/

/-- The fields of a record, normalized: no time is `none`, and a JSON array stands for a tuple too. -/
structure Record (Digest : Type) where
  evidence_id : Uuid
  owner_id : Option Uuid
  hunt_id : Uuid
  query_id : Uuid
  source_id : String
  splunk_job_id : String
  evidence_kind : EvidenceKind
  index : String
  sourcetype : String
  event_time_utc : Option Utc
  collected_at_utc : Utc
  source_event_ref : String
  selected_result : List (String × Json)
  truncation : TruncationMetadata
  sha256 : Digest
  dedupe_key : Option Digest

/-- `_normalize_source_event_ref`. -/
def normalize_source_event_ref (value : String) : String :=
  if (strip value.toList).isEmpty then "unknown" else value

theorem normalize_source_event_ref_twice (value : String) :
    normalize_source_event_ref (normalize_source_event_ref value) = normalize_source_event_ref value := by
  have hunknown : normalize_source_event_ref "unknown" = "unknown" := by decide
  by_cases h : (strip value.toList).isEmpty = true
  · rw [show normalize_source_event_ref value = "unknown" from if_pos h, hunknown]
  · have hvalue : normalize_source_event_ref value = value := if_neg h
    rw [hvalue, hvalue]

/-- `_timestamp_value`. -/
def timestamp_value : Option Utc → String
  | none => "unknown"
  | some time => isoformat time.1

/-- `identifier`: a text, or `None`. -/
def identifier : Option String → Json
  | none => .null
  | some s => .string s

namespace Record

variable {Digest : Type}

/-- The members that the envelope and the replay key begin with. -/
def source (e : Record Digest) : List (String × Json) :=
  [("schema_version", .string "1.0"), ("owner_id", identifier e.owner_id), ("hunt_id", .string e.hunt_id),
    ("query_id", .string e.query_id), ("source_id", .string e.source_id),
    ("splunk_job_id", .string e.splunk_job_id), ("evidence_kind", .string e.evidence_kind.text),
    ("index", .string e.index), ("sourcetype", .string e.sourcetype),
    ("event_time_utc", .string (timestamp_value e.event_time_utc))]

/-- `canonical_evidence_envelope`. -/
def canonical_evidence_envelope (e : Record Digest) : Json :=
  .object (e.source ++ [("collected_at_utc", .string (isoformat e.collected_at_utc.1)),
    ("source_event_ref", .string (normalize_source_event_ref e.source_event_ref)),
    ("selected_result", .object e.selected_result), ("truncation", e.truncation.model_dump)])

/-- The material of `_evidence_dedupe_key`. -/
def dedupe_identity (e : Record Digest) : Json :=
  .object (e.source ++ ("source_event_ref", .string (normalize_source_event_ref e.source_event_ref)) ::
    if normalize_source_event_ref e.source_event_ref = "unknown" then [("selected_result", .object e.selected_result)]
    else [])

end Record

/-- What the envelope is about. Of the selected result it is the value that counts, not the order of members. -/
structure Fields where
  owner_id : Option Uuid
  hunt_id : Uuid
  query_id : Uuid
  source_id : String
  splunk_job_id : String
  evidence_kind : EvidenceKind
  index : String
  sourcetype : String
  event_time_utc : Option Utc
  collected_at_utc : Utc
  source_event_ref : String
  selected_result : Json
  truncation : TruncationMetadata

def Record.fields {Digest : Type} (e : Record Digest) : Fields where
  owner_id := e.owner_id
  hunt_id := e.hunt_id
  query_id := e.query_id
  source_id := e.source_id
  splunk_job_id := e.splunk_job_id
  evidence_kind := e.evidence_kind
  index := e.index
  sourcetype := e.sourcetype
  event_time_utc := e.event_time_utc
  collected_at_utc := e.collected_at_utc
  source_event_ref := normalize_source_event_ref e.source_event_ref
  selected_result := (Json.object e.selected_result).sorted
  truncation := e.truncation

/-! ### The envelope determines the fields -/

section Injective

variable {Digest : Type} {e e' : Record Digest}

theorem timestamp_value_injective : Function.Injective timestamp_value
  | none, none, _ => rfl
  | some _, some _, h => congrArg some (isoformat_injective h)
  | none, some b, h => absurd h.symm (isoformat_ne_unknown b.1)
  | some a, none, h => absurd h (isoformat_ne_unknown a.1)

theorem identifier_injective {a b : Option String} (h : (identifier a).sorted = (identifier b).sorted) : a = b := by
  cases a <;> cases b <;> simp_all [identifier, Json.sorted]

theorem EvidenceKind.text_injective : Function.Injective EvidenceKind.text := by
  intro a b h
  cases a <;> cases b <;> simp_all [text]

namespace TruncationMetadata

theorem count_injective {a b : Option Nat} (h : (count a).sorted = (count b).sorted) : a = b := by
  cases a <;> cases b <;> simp_all [count, Json.sorted]

theorem model_dump_injective {t t' : TruncationMetadata} (h : t.model_dump.sorted = t'.model_dump.sorted) : t = t' := by
  have hnodup : fieldNames.Nodup := by decide
  have hmembers := Json.members_of_sorted h rfl hnodup
  simp only [List.map_cons, List.cons.injEq, Prod.mk.injEq, Json.sorted, Json.bool.injEq, Json.string.injEq] at hmembers
  obtain ⟨⟨-, htruncated⟩, ⟨-, hreason⟩, ⟨-, h₁⟩, ⟨-, h₂⟩, ⟨-, h₃⟩, ⟨-, h₄⟩, -⟩ := hmembers
  obtain ⟨_, _, _, _, _, _, _, _, _⟩ := t
  obtain ⟨_, _, _, _, _, _, _, _, _⟩ := t'
  simp only [mk.injEq]
  exact ⟨htruncated, hreason, count_injective h₁, count_injective h₂, count_injective h₃, count_injective h₄⟩

end TruncationMetadata

/-- **Envelopes.** Records with the same envelope, up to the order of members, have the same fields. -/
theorem fields_of_envelope
    (h : e.canonical_evidence_envelope.sorted = e'.canonical_evidence_envelope.sorted) : e.fields = e'.fields := by
  have hnodup : ["schema_version", "owner_id", "hunt_id", "query_id", "source_id", "splunk_job_id", "evidence_kind",
      "index", "sourcetype", "event_time_utc", "collected_at_utc", "source_event_ref", "selected_result",
      "truncation"].Nodup := by decide
  have hmembers := Json.members_of_sorted h rfl hnodup
  simp only [Record.source, List.cons_append, List.nil_append, List.map_cons, List.cons.injEq, Prod.mk.injEq,
    true_and] at hmembers
  obtain ⟨howner, hhunt, hquery, hsource, hjob, hkind, hindex, hsourcetype, htime, hcollected, href, hresult,
    htruncation, -⟩ := hmembers
  simp only [Json.sorted, Json.string.injEq] at hhunt hquery hsource hjob hkind hindex hsourcetype htime hcollected href
  simp only [Record.fields, Fields.mk.injEq]
  exact ⟨identifier_injective howner, hhunt, hquery, hsource, hjob, EvidenceKind.text_injective hkind, hindex,
    hsourcetype, timestamp_value_injective htime, isoformat_injective hcollected, href, hresult,
    TruncationMetadata.model_dump_injective htruncation⟩

/-- Two records come of the same source row. -/
def SameIdentity {Digest : Type} (e e' : Record Digest) : Prop := e.dedupe_identity.sorted = e'.dedupe_identity.sorted

theorem SameIdentity.scope (h : SameIdentity e e') :
    e.owner_id = e'.owner_id ∧ e.hunt_id = e'.hunt_id := by
  have hperm := Json.perm_of_sorted h
  have howner : ("owner_id", (identifier e.owner_id).sorted) ∈ _ := hperm.subset (by simp [Record.source])
  have hhunt : ("hunt_id", (Json.string e.hunt_id).sorted) ∈ _ := hperm.subset (by simp [Record.source])
  constructor
  · apply identifier_injective
    split at howner <;> simpa [Record.source] using howner
  · split at hhunt <;> simpa [Record.source, Json.sorted] using hhunt

end Injective

section Repository

variable {Digest : Type} (sha256_json : Json → Digest)

/-- The record after the field validators. -/
def Record.normal (e : Record Digest) : Record Digest :=
  { e with source_event_ref := normalize_source_event_ref e.source_event_ref }

theorem Record.normal_normal (e : Record Digest) : e.normal.normal = e.normal := by
  rw [normal, normal, normalize_source_event_ref_twice]

variable [DecidableEq Digest]

namespace Record

/-- `evidence_sha256`. -/
def evidence_sha256 (e : Record Digest) : Digest := sha256_json e.canonical_evidence_envelope

/-- `_evidence_dedupe_key`. -/
def evidence_dedupe_key (e : Record Digest) : Digest := sha256_json e.dedupe_identity

/-- `verify_evidence_integrity`. -/
def verify_evidence_integrity (e : Record Digest) : Bool := e.sha256 = e.evidence_sha256 sha256_json

/-- What the validators of `NormalizedEvidence` require of normalized fields: a selected result,
which has no number that is not finite, and the hash of the envelope. -/
def accepted (e : Record Digest) : Bool :=
  !e.selected_result.isEmpty && (Json.canonical (.object e.selected_result)).isSome
    && e.verify_evidence_integrity sha256_json

end Record

/-- `NormalizedEvidence`. -/
structure NormalizedEvidence where
  record : Record Digest
  normalized : record.normal = record
  accepted : record.accepted sha256_json = true

/-- A `ValidationError`. -/
inductive Invalid
  | validation_error
  deriving DecidableEq, Repr

/-- `NormalizedEvidence.model_validate`. -/
def model_validate (e : Record Digest) : Except Invalid (NormalizedEvidence sha256_json) :=
  if h : e.normal.accepted sha256_json = true then .ok ⟨e.normal, e.normal_normal, h⟩
  else .error .validation_error

theorem model_validate_of_accepted (e : NormalizedEvidence sha256_json) :
    model_validate sha256_json e.record = .ok e := by
  have haccepted : e.record.normal.accepted sha256_json = true := by
    rw [e.normalized]
    exact e.accepted
  rw [model_validate, dif_pos haccepted]
  obtain ⟨record, hnormal, -⟩ := e
  congr 2

/-! ### The table -/

/-- A row of `evidence_records`. -/
structure Columns (Digest : Type) where
  evidence_id : Uuid
  owner_id : Uuid
  hunt_id : Uuid
  query_id : Uuid
  source_id : String
  splunk_job_id : String
  evidence_kind : String
  index : String
  sourcetype : String
  event_time_utc : Option Utc
  collected_at_utc : Utc
  source_event_ref : String
  selected_result : Json
  truncation : Json
  sha256 : Digest
  dedupe_key : Digest
  created_at_utc : Utc

/-- `_from_row`. -/
def from_row (row : Columns Digest) : Except Invalid (NormalizedEvidence sha256_json) := do
  let some evidence_kind := EvidenceKind.ofText? row.evidence_kind | .error .validation_error
  let some truncation := TruncationMetadata.model_validate row.truncation | .error .validation_error
  let .object selected_result := row.selected_result | .error .validation_error
  model_validate sha256_json {
    evidence_id := row.evidence_id
    owner_id := some row.owner_id
    hunt_id := row.hunt_id
    query_id := row.query_id
    source_id := row.source_id
    splunk_job_id := row.splunk_job_id
    evidence_kind
    index := row.index
    sourcetype := row.sourcetype
    event_time_utc := row.event_time_utc
    collected_at_utc := row.collected_at_utc
    source_event_ref := row.source_event_ref
    selected_result
    truncation
    sha256 := row.sha256
    dedupe_key := some row.dedupe_key }

/-- The `values` of `save`, for the owner of the record. -/
def values (e : Record Digest) (owner_id : Uuid) : Columns Digest where
  evidence_id := e.evidence_id
  owner_id := owner_id
  hunt_id := e.hunt_id
  query_id := e.query_id
  source_id := e.source_id
  splunk_job_id := e.splunk_job_id
  evidence_kind := e.evidence_kind.text
  index := e.index
  sourcetype := e.sourcetype
  event_time_utc := e.event_time_utc
  collected_at_utc := e.collected_at_utc
  source_event_ref := e.source_event_ref
  selected_result := .object e.selected_result
  truncation := e.truncation.model_dump
  sha256 := e.sha256
  dedupe_key := e.evidence_dedupe_key sha256_json
  created_at_utc := e.collected_at_utc

/-- The record as it is read back: with its replay key. -/
def Record.stored (e : Record Digest) : Record Digest :=
  { e with dedupe_key := some (e.evidence_dedupe_key sha256_json) }

/-- **Columns.** What is stored of a record is read back as the record, with its replay key. -/
theorem from_row_values {e : NormalizedEvidence sha256_json} {owner_id : Uuid} (howner : e.record.owner_id = some owner_id) :
    ∃ stored, from_row sha256_json (values sha256_json e.record owner_id) = .ok stored ∧
      stored.record = e.record.stored sha256_json := by
  have hkind : ∀ kind : EvidenceKind, EvidenceKind.ofText? kind.text = some kind := by
    intro kind
    cases kind <;> rfl
  have hnormal : (e.record.stored sha256_json).normal = e.record.stored sha256_json := by
    rw [Record.stored]
    exact congrArg (fun r : Record Digest => { r with dedupe_key := some (e.record.evidence_dedupe_key sha256_json) })
      e.normalized
  have haccepted : (e.record.stored sha256_json).accepted sha256_json = true := e.accepted
  refine ⟨⟨_, hnormal, haccepted⟩, ?_, rfl⟩
  rw [← model_validate_of_accepted]
  simp only [from_row, values, hkind, TruncationMetadata.model_validate_dump, Record.stored, howner]

/-- A value of the primary key or of `uq_evidence_owner_hunt_dedupe`. -/
inductive Key (Digest : Type)
  | evidence_id (evidence_id : Uuid)
  | dedupe (owner_id hunt_id : Uuid) (dedupe_key : Digest)
  deriving DecidableEq

/-- A row of the table, which only `save` writes. -/
structure Row where
  columns : Columns Digest
  written : ∃ e : NormalizedEvidence sha256_json, ∃ owner_id, e.record.owner_id = some owner_id ∧
    columns = values sha256_json e.record owner_id

namespace Row

variable {sha256_json}

def keys (row : Row sha256_json) : List (Key Digest) :=
  [.evidence_id row.columns.evidence_id,
    .dedupe row.columns.owner_id row.columns.hunt_id row.columns.dedupe_key]

/-- The lengths of the text columns; PostgreSQL stores no NUL. -/
def fits (row : Row sha256_json) : Bool :=
  [(row.columns.source_id, 200), (row.columns.splunk_job_id, 200), (row.columns.index, 200),
    (row.columns.sourcetype, 200), (row.columns.source_event_ref, 500)].all fun (text, length) =>
      text.length ≤ length && '\x00' ∉ text.toList

end Row

/-- `evidence_records`. -/
def schema : Schema (Row sha256_json) (Key Digest) where
  keys := Row.keys
  fits := Row.fits

/-- Does a row hold a key? -/
def holds (key : Key Digest) (row : Row sha256_json) : Bool := key ∈ row.keys

/-! ### Saving and reading -/

variable {sha256_json}

/-- A record that has an owner. -/
structure Owned (sha256_json : Json → Digest) extends NormalizedEvidence sha256_json where
  owner_id : Uuid
  owned : record.owner_id = some owner_id

/-- The checks of `save` before its transaction: the owner, and the hash, which the model has
checked already. -/
def withOwner (e : NormalizedEvidence sha256_json) : Option (Owned sha256_json) :=
  match h : e.record.owner_id with
  | none => none
  | some owner_id => some { toNormalizedEvidence := e, owner_id, owned := h }

namespace Owned

/-- The row that is inserted. -/
def row (e : Owned sha256_json) : Row sha256_json where
  columns := values sha256_json e.record e.owner_id
  written := ⟨e.toNormalizedEvidence, e.owner_id, e.owned, rfl⟩

/-- The key by which a replay is recognised. -/
def natural (e : Owned sha256_json) : Key Digest :=
  .dedupe e.owner_id e.record.hunt_id (e.record.evidence_dedupe_key sha256_json)

/-- What the transaction of `save` returns, or the error of reading a row back. -/
abbrev Saved (sha256_json : Json → Digest) := Except Invalid (NormalizedEvidence sha256_json)

/-- The transaction of `save`. -/
def save (e : Owned sha256_json) : Body (Row sha256_json) (Saved sha256_json) := do
  let existing ← Body.lookupOrInsert (holds sha256_json e.natural) (holds sha256_json e.natural) e.row
    (.raise .unique_violation)
  match existing with
  | some row => return from_row sha256_json row.columns
  | none => return .ok e.toNormalizedEvidence

end Owned

/-- `get`: the first row of the record, owner and hunt. -/
def get (rows : List (Row sha256_json)) (evidence_id owner_id hunt_id : Uuid) :
    Option (Except Invalid (NormalizedEvidence sha256_json)) :=
  (rows.find? fun row => row.columns.evidence_id = evidence_id && row.columns.owner_id = owner_id
    && row.columns.hunt_id = hunt_id).map fun row => from_row sha256_json row.columns

/-! ### What saving guarantees -/

/-- What a call of `save` guarantees: there is a row with its replay key, and the call has
returned the record of that row. The row is its own if it has inserted one. -/
def Owned.Replayed (e : Owned sha256_json) (result : Saved sha256_json) (rows : List (Row sha256_json)) : Prop :=
  ∃ row ∈ rows, holds sha256_json e.natural row = true ∧ ∃ saved stored, result = .ok saved ∧
    from_row sha256_json row.columns = .ok stored ∧ stored.record = saved.record.stored sha256_json ∧
    (row = e.row ∧ saved = e.toNormalizedEvidence ∨ saved = stored)

theorem Row.read (row : Row sha256_json) : ∃ stored, from_row sha256_json row.columns = .ok stored ∧
    stored.record = stored.record.stored sha256_json ∧ stored.record.evidence_id = row.columns.evidence_id := by
  obtain ⟨e, owner_id, howner, hcolumns⟩ := row.written
  obtain ⟨stored, hread, hstored⟩ := from_row_values sha256_json howner
  rw [hcolumns]
  exact ⟨stored, hread, by rw [hstored]; rfl, by rw [hstored]; rfl⟩

theorem save_meets (e : Owned sha256_json) (committed : List (Row sha256_json)) :
    e.save.Meets (schema sha256_json) e.Replayed [] committed := by
  refine Body.meets_lookupOrInsert (fun later _ row hrow hnatural => ?_) fun later _ => ?_
  · obtain ⟨stored, hread, hstored, -⟩ := row.read
    have hmem : row ∈ later ++ [] := List.mem_append_left _ hrow
    exact ⟨row, hmem, hnatural, stored, stored, hread, hread, hstored, .inr rfl⟩
  · obtain ⟨stored, hread, hstored⟩ := from_row_values sha256_json e.owned
    have hmem : e.row ∈ later ++ [e.row] := by simp
    have hnatural : holds sha256_json e.natural e.row = true :=
      decide_eq_true (List.mem_cons_of_mem _ List.mem_cons_self)
    exact ⟨e.row, hmem, hnatural, e.toNormalizedEvidence, stored, rfl, hread, hstored, .inl ⟨rfl, rfl⟩⟩

theorem lasting_replayed (e : Owned sha256_json) : Lasting e.Replayed := by
  intro result rows more hsub h
  obtain ⟨row, hrow, hrest⟩ := h
  exact ⟨row, hsub hrow, hrest⟩

theorem Row.of_natural {e : Owned sha256_json} {row : Row sha256_json} (h : holds sha256_json e.natural row = true) :
    row.columns.owner_id = e.owner_id ∧ row.columns.hunt_id = e.record.hunt_id := by
  have hmem : e.natural ∈ row.keys := of_decide_eq_true h
  simp only [Owned.natural, Row.keys, List.mem_cons, List.not_mem_nil, reduceCtorEq, Key.dedupe.injEq, or_false,
    false_or] at hmem
  exact ⟨hmem.1.symm, hmem.2.1.symm⟩

/-- A row is read by its id, owner and hunt. -/
theorem get_of_mem {rows : List (Row sha256_json)} (hapart : Apart (schema sha256_json) rows)
    {row : Row sha256_json} (hrow : row ∈ rows) :
    get rows row.columns.evidence_id row.columns.owner_id row.columns.hunt_id =
      some (from_row sha256_json row.columns) := by
  have hfound : (rows.find? fun r => r.columns.evidence_id = row.columns.evidence_id
      && r.columns.owner_id = row.columns.owner_id && r.columns.hunt_id = row.columns.hunt_id).isSome := by
    rw [List.find?_isSome]
    exact ⟨row, hrow, by simp⟩
  obtain ⟨found, hfind⟩ := Option.isSome_iff_exists.mp hfound
  have hid : found.columns.evidence_id = row.columns.evidence_id := by
    have hcondition := List.find?_some hfind
    simp only [Bool.and_eq_true, decide_eq_true_eq] at hcondition
    exact hcondition.1.1
  have hsame : found = row :=
    Apart.eq_of_key hapart (List.mem_of_find?_eq_some hfind) hrow (k := .evidence_id row.columns.evidence_id)
      (by rw [← hid]; exact List.mem_cons_self) List.mem_cons_self
  rw [get, hfind, hsame, Option.map_some]

/-! ### The guarantee -/

/-- SHA-256 has no collisions, and the canonical JSON of a value determines it up to the order of members. -/
def CollisionFree (sha256_json : Json → Digest) : Prop :=
  ∀ a b, sha256_json a = sha256_json b ↔ a.sorted = b.sorted

/-- The hash of a record is verified, and is not that of a record with other fields. -/
structure TamperEvident (sha256_json : Json → Digest) (e : Record Digest) : Prop where
  verified : e.verify_evidence_integrity sha256_json = true
  fields : ∀ e' : Record Digest, e'.sha256 = e.sha256 → e'.fields ≠ e.fields →
    e'.verify_evidence_integrity sha256_json = false
  digest : ∀ sha256, sha256 ≠ e.sha256 → { e with sha256 }.verify_evidence_integrity sha256_json = false

theorem tamper_evident (hfree : CollisionFree sha256_json) (e : NormalizedEvidence sha256_json) :
    TamperEvident sha256_json e.record := by
  have hverified : e.record.verify_evidence_integrity sha256_json = true := (Bool.and_eq_true_iff.mp e.accepted).2
  have hdigest : e.record.sha256 = e.record.evidence_sha256 sha256_json := of_decide_eq_true hverified
  refine ⟨hverified, fun e' hsha hfields => ?_, fun sha256 hsha => ?_⟩
  · refine decide_eq_false fun hsame => hfields ?_
    rw [hsha, hdigest] at hsame
    exact (fields_of_envelope ((hfree _ _).mp hsame)).symm
  · -- the envelope has no part in the hash that is stored
    have henvelope : { e.record with sha256 }.evidence_sha256 sha256_json = e.record.sha256 := hdigest.symm
    exact decide_eq_false fun hsame => hsha (hsame.trans henvelope)

/-- What a call of `save` that has returned `saved` guarantees from then on. -/
structure Owned.Stored (e : Owned sha256_json) (saved : NormalizedEvidence sha256_json)
    (rows : List (Row sha256_json)) : Prop where
  once : rows.countP (holds sha256_json e.natural) = 1
  same : ∀ row ∈ rows, holds sha256_json e.natural row = true →
    ∃ stored, from_row sha256_json row.columns = .ok stored ∧ stored.record = saved.record.stored sha256_json
  /-- The record is the caller's own, or the one that was stored before. -/
  origin : saved = e.toNormalizedEvidence ∧ e.row ∈ rows ∨
    ∃ row ∈ rows, holds sha256_json e.natural row = true ∧ from_row sha256_json row.columns = .ok saved
  /-- It is read back with the same envelope, and its changes are found. -/
  read : ∃ stored, get rows saved.record.evidence_id e.owner_id e.record.hunt_id = some (.ok stored) ∧
    stored.record = saved.record.stored sha256_json ∧
    stored.record.canonical_evidence_envelope = saved.record.canonical_evidence_envelope ∧
    TamperEvident sha256_json stored.record

theorem Owned.stored_of_replayed (hfree : CollisionFree sha256_json) {e : Owned sha256_json}
    {rows : List (Row sha256_json)} (hapart : Apart (schema sha256_json) rows) {result : Saved sha256_json}
    (h : e.Replayed result rows) : ∃ saved, result = .ok saved ∧ e.Stored saved rows := by
  obtain ⟨row, hrow, hnatural, saved, stored, hresult, hread, hstored, horigin⟩ := h
  have hkey : e.natural ∈ row.keys := of_decide_eq_true hnatural
  refine ⟨saved, hresult, ?_, ?_, ?_, ?_⟩
  · exact hapart.countP_eq_one hrow hkey
  · intro row' hrow' hnatural'
    have hsame : row' = row := hapart.eq_of_key hrow' hrow (of_decide_eq_true hnatural') hkey
    rw [hsame]
    exact ⟨stored, hread, hstored⟩
  · rcases horigin with ⟨rfl, hown⟩ | rfl
    · exact .inl ⟨hown, hrow⟩
    · exact .inr ⟨row, hrow, hnatural, hread⟩
  · obtain ⟨howner, hhunt⟩ := Row.of_natural hnatural
    obtain ⟨stored', hread', -, hid⟩ := row.read
    have hstored' : stored' = stored := Except.ok.inj (hread'.symm.trans hread)
    have hsaved : saved.record.evidence_id = row.columns.evidence_id := by
      rw [← hid, hstored', hstored]
      rfl
    refine ⟨stored, ?_, hstored, ?_, tamper_evident hfree stored⟩
    · rw [hsaved, ← howner, ← hhunt, get_of_mem hapart hrow, hread]
    · rw [hstored]
      rfl

end Repository

/-! ### Saving is stable under replays -/

section Runs

variable {ι Digest : Type} [DecidableEq ι] [DecidableEq Digest] {sha256_json : Json → Digest}
  (calls : ι → Owned sha256_json)

/-- What saving is to guarantee: every call that has ended has returned a record that is stored, and
calls for the same source row have returned what is stored of the first. -/
structure ReplayStable (s : System ι (Row sha256_json) (Owned.Saved sha256_json)) : Prop where
  stored : ∀ i result, s.status i = .finished result →
    ∃ saved, result = .ok (.ok saved) ∧ (calls i).Stored saved s.committed
  replayed : ∀ i j saved saved', s.status i = .finished (.ok (.ok saved)) →
    s.status j = .finished (.ok (.ok saved')) → SameIdentity (calls i).record (calls j).record →
      saved.record.stored sha256_json = saved'.record.stored sha256_json

/-- **Evidence.** In a run whose inserts are not refused, saving is stable under replays in every
state, and what is stored is tamper-evident. -/
theorem evidence_replay_stable (hfree : CollisionFree sha256_json)
    {s₀ s : System ι (Row sha256_json) (Owned.Saved sha256_json)} (hapart : Apart (schema sha256_json) s₀.committed)
    (hwaiting : ∀ i, s₀.status i = .waiting)
    (hrun : Run (schema sha256_json) (fun i => (calls i).save) Clear s₀ s) : ReplayStable calls s := by
  have hintact := hrun.intact (fun i => lasting_replayed (calls i)) hapart hwaiting fun i =>
    save_meets (calls i) s₀.committed
  have hstored : ∀ i result, s.status i = .finished result →
      ∃ saved, result = .ok (.ok saved) ∧ (calls i).Stored saved s.committed := by
    intro i result hfinished
    have hcall := hintact.calls i
    rw [hfinished] at hcall
    obtain ⟨a, hresult, hreplayed⟩ := hcall
    obtain ⟨saved, hsaved, h⟩ := Owned.stored_of_replayed hfree hintact.apart hreplayed
    exact ⟨saved, by rw [hresult, hsaved], h⟩
  refine ⟨hstored, fun i j saved saved' hi hj hidentity => ?_⟩
  obtain ⟨_, hsaved, hsavedStored⟩ := hstored i _ hi
  obtain ⟨_, hsaved', hsavedStored'⟩ := hstored j _ hj
  cases hsaved
  cases hsaved'
  -- both calls go by the same key, so the one row with it is read by both
  have hnatural : (calls i).natural = (calls j).natural := by
    obtain ⟨howner, hhunt⟩ := hidentity.scope
    rw [(calls i).owned, (calls j).owned] at howner
    rw [Owned.natural, Owned.natural, Option.some.inj howner, hhunt, Record.evidence_dedupe_key,
      Record.evidence_dedupe_key, (hfree _ _).mpr hidentity]
  obtain ⟨row, hrow, hholds⟩ : ∃ row ∈ s.committed, holds sha256_json (calls i).natural row = true := by
    rw [← List.countP_pos_iff, hsavedStored.once]
    exact Nat.one_pos
  obtain ⟨stored, hread, hsame⟩ := hsavedStored.same row hrow hholds
  obtain ⟨stored', hread', hsame'⟩ := hsavedStored'.same row hrow (hnatural ▸ hholds)
  rw [← hsame, ← hsame', Except.ok.inj (hread.symm.trans hread')]

end Runs

/-! ### Two callers -/

/-- A retained event, under an id. -/
def sampleRecord (evidence_id : Uuid) : Record Json :=
  let record : Record Json := {
    evidence_id
    owner_id := some "owner-1"
    hunt_id := "hunt-1"
    query_id := "query-1"
    source_id := "splunk-1"
    splunk_job_id := "job-1"
    evidence_kind := .raw_event
    index := "main"
    sourcetype := "unknown"
    event_time_utc := none
    collected_at_utc := ⟨0, by decide⟩
    source_event_ref := "row-1"
    selected_result := [("host", .string "host-1")]
    truncation := {}
    sha256 := .null
    dedupe_key := none }
  { record with sha256 := record.evidence_sha256 Json.sorted }

/-- It is accepted, with a hash that keeps the envelope. -/
def sampleEvidence (evidence_id : Uuid) : Owned Json.sorted where
  record := sampleRecord evidence_id
  normalized := by
    have href : normalize_source_event_ref "row-1" = "row-1" := by decide
    rw [Record.normal, sampleRecord, href]
  accepted := by
    have hhash : (sampleRecord evidence_id).verify_evidence_integrity Json.sorted = true := decide_eq_true rfl
    have hresult : (Json.canonical (.object [("host", .string "host-1")])).isSome = true := by decide
    rw [Record.accepted, hhash]
    exact Bool.and_eq_true_iff.mpr ⟨hresult, rfl⟩
  owner_id := "owner-1"
  owned := rfl

/-- Two calls that save the same source row. -/
def evidenceCalls : Bool → Owned Json.sorted
  | false => sampleEvidence "evidence-1"
  | true => sampleEvidence "evidence-2"

/-- No rows, and no call begun. -/
def untouched : System Bool (Row Json.sorted) (Owned.Saved Json.sorted) where
  committed := []
  status := fun _ => .waiting

theorem fits_sample (evidence_id : Uuid) : (sampleEvidence evidence_id).row.fits = true := by
  have htexts : ([("splunk-1", 200), ("job-1", 200), ("main", 200), ("unknown", 200), ("row-1", 500)].all
      fun (text, length) => text.length ≤ length && '\x00' ∉ text.toList) = true := by decide
  exact htexts

/-- No other call has inserted anything yet. -/
theorem pending_other {s : System Bool (Row Json.sorted) (Owned.Saved Json.sorted)} (h : s.pending true = [])
    (j : Bool) (hj : j ≠ false) (row : Row Json.sorted) (hrow : row ∈ s.pending j) : False := by
  rw [Bool.eq_true_of_not_eq_false hj, h] at hrow
  cases hrow

theorem holds_sample (a b : Uuid) : holds Json.sorted (sampleEvidence a).natural (sampleEvidence b).row = true := by
  have hkey : (sampleEvidence a).natural ∈ (sampleEvidence b).row.keys := List.mem_cons_of_mem _ List.mem_cons_self
  exact decide_eq_true hkey

/-- The second call finds what the first has stored. -/
theorem replayed_evidence_stable :
    ∃ s, s.status true = .finished (.ok (from_row Json.sorted (sampleEvidence "evidence-1").row.columns)) ∧
      ReplayStable evidenceCalls s := by
  have h₀ : Run (schema Json.sorted) (fun i => (evidenceCalls i).save) Clear untouched untouched := .refl
  have h₁ := h₀.step (Step.begun (i := false) rfl) trivial
  have h₂ := h₁.step (Step.missing (i := false) rfl fun _ hr => absurd hr List.not_mem_nil) trivial
  have h₃ := h₂.step (Step.inserted (i := false) rfl (fits_sample "evidence-1")
    (fun _ hr => absurd hr List.not_mem_nil) fun j hj row hrow => (pending_other rfl j hj row hrow).elim) trivial
  have h₄ := h₃.step (Step.committed (i := false) rfl) trivial
  have h₅ := h₄.step (Step.begun (i := true) rfl) trivial
  have h₆ := h₅.step (Step.found (i := true) rfl List.mem_cons_self (holds_sample _ _)) trivial
  have h₇ := h₆.step (Step.committed (i := true) rfl) trivial
  have hapart : Apart (schema Json.sorted) untouched.committed := List.Pairwise.nil
  exact ⟨_, rfl, evidence_replay_stable evidenceCalls (fun _ _ => Iff.rfl) hapart (fun _ => rfl) h₇⟩

/-- Both calls look the row up before either has inserted it. The insert of the second is refused,
and so is its second read: the call raises. -/
theorem contested_evidence_raises :
    ∃ s, CollisionFree Json.sorted ∧
      Run (schema Json.sorted) (fun i => (evidenceCalls i).save) (fun _ _ => True) untouched s ∧
      s.status true = .finished (.error .in_failed_transaction) ∧ ¬ReplayStable evidenceCalls s := by
  have h₀ : Run (schema Json.sorted) (fun i => (evidenceCalls i).save) (fun _ _ => True) untouched untouched := .refl
  have h₁ := h₀.step (Step.begun (i := false) rfl) trivial
  have h₂ := h₁.step (Step.begun (i := true) rfl) trivial
  have h₃ := h₂.step (Step.missing (i := false) rfl fun _ hr => absurd hr List.not_mem_nil) trivial
  have h₄ := h₃.step (Step.missing (i := true) rfl fun _ hr => absurd hr List.not_mem_nil) trivial
  have h₅ := h₄.step (Step.inserted (i := false) rfl (fits_sample "evidence-1")
    (fun _ hr => absurd hr List.not_mem_nil) fun j hj row hrow => (pending_other rfl j hj row hrow).elim) trivial
  have h₆ := h₅.step (Step.committed (i := false) rfl) trivial
  have h₇ := h₆.step (Step.refused (i := true) rfl List.mem_cons_self
    ⟨(sampleEvidence "evidence-2").natural, of_decide_eq_true (holds_sample _ _), of_decide_eq_true (holds_sample _ _)⟩) trivial
  have h₈ := h₇.step (Step.select_failed (i := true) rfl) trivial
  have h₉ := h₈.step (Step.raised (i := true) rfl) trivial
  refine ⟨_, fun _ _ => Iff.rfl, h₉, rfl, fun hstable => ?_⟩
  obtain ⟨saved, hsaved, -⟩ := hstable.stored true _ rfl
  cases hsaved

end Evidence

end ThreatHunting
