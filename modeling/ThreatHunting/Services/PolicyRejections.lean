import ThreatHunting.Services.Audit
import ThreatHunting.Services.Timeline

/-!
# ThreatHunting.Services.PolicyRejections

`_persist_policy_rejections` of `services/workflow.py`: rejected proposals go into the results of
their hunt, and into the audit record of that change. The metadata of a record is limited in its bytes.
Proposals that are too large are replaced by their digests, but the size is measured before
`_update` adds the changed fields, and not measured again after the digests have been cut to a
hundred.
-/

namespace ThreatHunting

open Store
open Fallible
open Spl (ResultMode)

namespace PolicyRejections

open Json (canonicalSize dumpsSize textBytes)
open ModelOutput (Members)
open WorkflowService (exampleDatabase exampleRow)

/-! ### Proposals and rejections -/

/-- `QueryProposal`, with the member that the policy does not read. -/
structure Proposal extends Spl.QueryProposal where
  expected_information_gain : Text

/-- A list of texts. -/
def textArray (texts : List Text) : Json := .array (texts.map fun text => .string (String.ofList text))

/-- The value of a result mode. -/
def modeValue : ResultMode → String
  | .aggregate => "aggregate"
  | .representative => "representative"
  | .targeted => "targeted"

/-- The members of `proposal.model_dump(mode="json")`. -/
def Proposal.members (p : Proposal) : Members :=
  [("question_id", .string (String.ofList p.question_id)), ("purpose", .string (String.ofList p.purpose)),
    ("expected_information_gain", .string (String.ofList p.expected_information_gain)),
    ("spl", .string (String.ofList p.spl)),
    ("earliest_utc", .string (EvidenceLookup.isoformat p.earliest_utc)),
    ("latest_utc", .string (EvidenceLookup.isoformat p.latest_utc)),
    ("indexes", textArray p.indexes), ("sourcetypes", textArray p.sourcetypes),
    ("requested_fields", textArray p.requested_fields),
    ("result_mode", .string (modeValue p.result_mode)), ("max_results", .int p.max_results)]

/-- `proposal.model_dump(mode="json")`. -/
def Proposal.model_dump (p : Proposal) : Json := .object p.members

/-- What the contract asks of a proposal. -/
def Proposal.valid (p : Proposal) : Bool :=
  [p.question_id, p.purpose, p.expected_information_gain, p.spl].all (· ≠ []) &&
    (p.indexes ++ p.sourcetypes ++ p.requested_fields).all (· ≠ []) && proposalWellFormed p.toQueryProposal

/-- A rejection as planning records it; the application's own rejections name no query and no policy. -/
structure Rejection where
  query_id : Option Uuid
  proposal : Proposal
  reason_codes : List String
  query_policy_version : Option String

/-- The rejection as the results keep it. -/
def Rejection.stored (r : Rejection) : PolicyRejection := ⟨r.query_id, r.proposal.toQueryProposal, r.reason_codes⟩

/-- A lowercase SHA-256. -/
structure Digest where
  hex : String
  length : hex.toList.length = 64
  digits : ∀ c ∈ hex.toList, c ∈ "0123456789abcdef".toList

/-! ### The metadata -/

/-- `MAX_AUDIT_METADATA_BYTES`. -/
def max_audit_metadata_bytes : Nat := 32768

/-- `bounded_audit_metadata`, of a dictionary. -/
def bounded_audit_metadata (value : Members) : Except Fault Json :=
  match canonicalSize (.object value) with
  | none => .error (.value_error "audit metadata must be JSON-serializable")
  | some size =>
      if max_audit_metadata_bytes < size then .error (.value_error "audit metadata exceeds the 32768-byte limit")
      else .ok (Json.sorted (.object value))

/-- A text or `None`. -/
def optional : Option String → Json
  | some s => .string s
  | none => .null

/-- A list of strings. -/
def strings (texts : List String) : Json := .array (texts.map .string)

variable (sha256_json : Json → Digest)

/-- The members of an item but for its proposal. -/
def Rejection.fields (r : Rejection) : Members :=
  [("query_id", optional r.query_id), ("reason_codes", strings r.reason_codes),
    ("query_policy_version", optional r.query_policy_version)]

/-- An item with its proposal. -/
def rawItem (r : Rejection) : Json := .object (r.fields ++ [("proposal", r.proposal.model_dump)])

/-- An item with the digest of its proposal. -/
def digestItem (r : Rejection) : Json :=
  .object (r.fields ++ [("proposal_sha256", .string (sha256_json r.proposal.model_dump).hex)])

/-- An item of `audit_rejections`. -/
def auditItem (r : Rejection) : Json :=
  match bounded_audit_metadata [("rejection", rawItem r)] with
  | .ok _ => rawItem r
  | .error _ => digestItem sha256_json r

/-- `reason_codes`: the codes of all rejections, each once. -/
def reason_codes (rejections : List Rejection) : List String := (rejections.flatMap (·.reason_codes)).eraseDups

/-- Metadata of these items. -/
def metadataOf (rejections : List Rejection) (items : List Json) : Members :=
  [("reason_codes", strings (reason_codes rejections)), ("rejections", .array items)]

/-- `audit_metadata`. -/
def audit_metadata (rejections : List Rejection) : Members :=
  let whole := metadataOf rejections (rejections.map (auditItem sha256_json))
  match bounded_audit_metadata whole with
  | .ok _ => whole
  | .error _ =>
      let digests := rejections.map (digestItem sha256_json)
      if max_audit_metadata_bytes < dumpsSize (.object (metadataOf rejections digests)) then
        metadataOf rejections (digests.take 100)
      else metadataOf rejections digests

/-! ### Recording -/

/-- The name of a column. -/
def fieldName : Audit.Field → String
  | .state => "state"
  | .plan_version => "plan_version"
  | .report_state => "report_state"
  | .report_version => "report_version"
  | .results => "results"

/-- What `_update` sets, and its record's metadata. -/
def update (db : Database) (owner_id : String) (hunt_id : Uuid) (expected_state : HuntState) (values : Values)
    (audit_metadata : Members) : Except Fault (Database × Option Json) :=
  let expect : Expect := { state := some expected_state }
  match Audit.select db owner_id hunt_id expect, db.updateHunt owner_id hunt_id expect values with
  | some previous, some updated =>
      match Audit.changed_fields values previous with
      | [] => .ok (updated, none)
      | changed_fields => do
          -- an exception here takes the update back with it
          let metadata ← bounded_audit_metadata <|
            ("changed_fields", strings (changed_fields.map fieldName)) :: audit_metadata
          return (updated, some metadata)
  | _, _ => .error (.conflict "hunt changed before the operation completed")

/-- `_persist_policy_rejections`. -/
def persist_policy_rejections (db : Database) (owner_id : String) (hunt_id : Uuid) (rejections : List Rejection)
    (expected_state : HuntState) (now : Instant) : Except Fault (Database × Option Json) :=
  if rejections.isEmpty then .ok (db, none)
  else
    match db.owned owner_id hunt_id with
    | none => .error (.not_found "hunt not found")
    | some current =>
        let results := current.results.getD {}
        let stored := results.query_policy_rejections.getD [] ++ rejections.map (·.stored)
        update db owner_id hunt_id expected_state
          { results := some { results with query_policy_rejections := some stored }, updated_at_utc := now }
          (audit_metadata sha256_json rejections)

/-! ### Sizes

How many bytes the metadata takes depends on the bytes of the texts and of the proposals. -/

/-- The bytes of an array of items of these bytes. -/
def listBytes (sizes : List Nat) : Nat := 2 + sizes.sum + (sizes.length - 1)

/-- The bytes of a text or of `null`. -/
def optionalBytes : Option String → Nat
  | some s => textBytes s
  | none => 4

/-- The bytes of a proposal, from those of its members. -/
def Proposal.bytes (p : Proposal) : Nat := 12 + (Json.memberBytes p.members).getD 0

/-- The bytes of the texts of a rejection. -/
def Rejection.fieldBytes (r : Rejection) : Nat :=
  optionalBytes r.query_id + listBytes (r.reason_codes.map textBytes) + optionalBytes r.query_policy_version

/-- The bytes of an item with its proposal. -/
def Rejection.rawBytes (r : Rejection) : Nat := 65 + r.fieldBytes + r.proposal.bytes

/-- The bytes of an item with a digest. -/
def Rejection.digestBytes (r : Rejection) : Nat := 138 + r.fieldBytes

/-- The bytes of an item, which has the proposal if it fits a record of its own. -/
def Rejection.itemBytes (r : Rejection) : Nat :=
  if 14 + r.rawBytes ≤ max_audit_metadata_bytes then r.rawBytes else r.digestBytes

/-- The bytes of the metadata, with the changed fields, for items of these bytes. -/
def metadataBytes (rejections : List Rejection) (items : List Nat) : Nat :=
  60 + listBytes ((reason_codes rejections).map textBytes) + listBytes items

/-- How many blanks the default text of digests has more than the compact one. -/
def blanks (rejections : List Rejection) : Nat :=
  3 + ((reason_codes rejections).length - 1) + (rejections.map fun r => 7 + (r.reason_codes.length - 1)).sum +
    (rejections.length - 1)

/-- The items of the metadata that is recorded if the whole of it is too large. -/
def kept (rejections : List Rejection) : List Nat :=
  let digests := rejections.map (·.digestBytes)
  -- the digests are measured in the default text, without the changed fields
  if max_audit_metadata_bytes + 29 < metadataBytes rejections digests + blanks rejections then digests.take 100
  else digests

/-- The metadata fits, with the changed fields: the whole of it, or what is left where the whole does not
fit without them. -/
def Fits (rejections : List Rejection) : Prop :=
  let whole := metadataBytes rejections (rejections.map (·.itemBytes))
  whole ≤ max_audit_metadata_bytes ∨
    max_audit_metadata_bytes + 29 < whole ∧ metadataBytes rejections (kept rejections) ≤ max_audit_metadata_bytes

instance (rejections : List Rejection) : Decidable (Fits rejections) := by
  unfold Fits
  infer_instance

section

variable {sha256_json}

theorem Digest.bytes (d : Digest) : textBytes d.hex = 66 := by
  have hplain : ∀ c ∈ "0123456789abcdef".toList, Json.escape c = [c] ∧ c.utf8Size = 1 := by decide
  rw [Json.textBytes_of_plain fun c hc => hplain c (d.digits c hc), d.length]

@[simp] theorem canonicalSize_optional (s : Option String) : canonicalSize (optional s) = some (optionalBytes s) := by
  cases s <;> rfl

@[simp] theorem canonicalSize_strings (texts : List String) :
    canonicalSize (strings texts) = some (listBytes (texts.map textBytes)) := by
  rw [strings, Json.canonicalSize_array_map fun s _ => Json.canonicalSize_string s, listBytes, List.length_map]

theorem canonicalSize_textArray (texts : List Text) :
    canonicalSize (textArray texts) = some (listBytes (texts.map fun text => textBytes (String.ofList text))) := by
  rw [textArray, Json.canonicalSize_array_map fun _ _ => Json.canonicalSize_string _, listBytes, List.length_map]

/-- A proposal always has a text. -/
theorem Proposal.canonicalSize_model_dump (p : Proposal) : canonicalSize p.model_dump = some p.bytes := by
  obtain ⟨n, hint⟩ : ∃ n, canonicalSize (.int p.max_results) = some n := ⟨_, rfl⟩
  have hsome : (Json.memberBytes p.members).isSome := by
    simp [members, Json.memberBytes, canonicalSize_textArray, hint]
  obtain ⟨n, hn⟩ := Option.isSome_iff_exists.mp hsome
  rw [model_dump, Json.canonicalSize_object, bytes, hn]
  simp [members]
  omega

/-- The bytes of the names of an item's members. -/
theorem itemNames : textBytes "query_id" = 10 ∧ textBytes "reason_codes" = 14 ∧
    textBytes "query_policy_version" = 22 ∧ textBytes "proposal" = 10 ∧ textBytes "proposal_sha256" = 17 := by
  decide

/-- The bytes of the names of the metadata's members. -/
theorem metadataNames : textBytes "rejection" = 11 ∧ textBytes "rejections" = 12 ∧ textBytes "changed_fields" = 16 ∧
    textBytes "results" = 9 := by
  decide

theorem canonicalSize_rawItem (r : Rejection) : canonicalSize (rawItem r) = some r.rawBytes := by
  rw [rawItem, Rejection.fields, Json.canonicalSize_object]
  obtain ⟨hquery, hcodes, hversion, hproposal, -⟩ := itemNames
  simp [Json.memberBytes, Proposal.canonicalSize_model_dump, Rejection.rawBytes, Rejection.fieldBytes,
    hquery, hcodes, hversion, hproposal]
  omega

theorem canonicalSize_digestItem (r : Rejection) :
    canonicalSize (digestItem sha256_json r) = some r.digestBytes := by
  rw [digestItem, Rejection.fields, Json.canonicalSize_object]
  obtain ⟨hquery, hcodes, hversion, -, hdigest⟩ := itemNames
  simp [Json.memberBytes, Digest.bytes, Rejection.digestBytes, Rejection.fieldBytes, hquery, hcodes, hversion, hdigest]
  omega

@[simp] theorem dumpsSize_optional (s : Option String) : dumpsSize (optional s) = optionalBytes s := by
  cases s with
  | none => exact Json.dumpsSize_null
  | some s => rfl

/-- A list of strings has a blank between any two of them. -/
@[simp] theorem dumpsSize_strings (texts : List String) :
    dumpsSize (strings texts) = listBytes (texts.map textBytes) + (texts.length - 1) := by
  have htexts : (fun s : String => dumpsSize (.string s)) = textBytes := rfl
  rw [strings, Json.dumpsSize_array_map, htexts, listBytes, List.length_map]
  omega

/-- An item of the default text has seven blanks, and one between any two codes. -/
theorem dumpsSize_digestItem (r : Rejection) :
    dumpsSize (digestItem sha256_json r) = r.digestBytes + (7 + (r.reason_codes.length - 1)) := by
  rw [digestItem, Rejection.fields, Json.dumpsSize_object]
  obtain ⟨hquery, hcodes, hversion, -, hdigest⟩ := itemNames
  simp [Json.dumpsMemberBytes, Digest.bytes, Rejection.digestBytes, Rejection.fieldBytes, hquery, hcodes, hversion,
    hdigest, listBytes]
  omega

/-- What `bounded_audit_metadata` accepts is a matter of bytes. -/
theorem bounded_audit_metadata_of_size {value : Members} {size : Nat} (h : canonicalSize (.object value) = some size) :
    bounded_audit_metadata value =
      if max_audit_metadata_bytes < size then .error (.value_error "audit metadata exceeds the 32768-byte limit")
      else .ok (Json.sorted (.object value)) := by
  rw [bounded_audit_metadata, h]

theorem canonicalSize_auditItem (r : Rejection) : canonicalSize (auditItem sha256_json r) = some r.itemBytes := by
  have hrejection : canonicalSize (.object [("rejection", rawItem r)]) = some (14 + r.rawBytes) := by
    rw [Json.canonicalSize_object]
    simp [Json.memberBytes, canonicalSize_rawItem, metadataNames.1]
    omega
  rw [auditItem, bounded_audit_metadata_of_size hrejection, Rejection.itemBytes]
  by_cases hlarge : max_audit_metadata_bytes < 14 + r.rawBytes
  · rw [if_pos hlarge, if_neg (Nat.not_le.mpr hlarge)]
    exact canonicalSize_digestItem r
  · rw [if_neg hlarge, if_pos (Nat.not_lt.mp hlarge)]
    exact canonicalSize_rawItem r

/-- Items of the metadata take the bytes they take one by one. -/
theorem canonicalSize_items {α : Type} {f : α → Json} {size : α → Nat} (as : List α)
    (h : ∀ a ∈ as, canonicalSize (f a) = some (size a)) :
    canonicalSize (.array (as.map f)) = some (listBytes (as.map size)) := by
  rw [Json.canonicalSize_array_map h, listBytes, List.length_map]

theorem canonicalSize_metadataOf {rejections : List Rejection} {items : List Json} {sizes : List Nat}
    (h : canonicalSize (.array items) = some (listBytes sizes)) :
    canonicalSize (.object (metadataOf rejections items)) = some (metadataBytes rejections sizes - 29) := by
  rw [metadataOf, Json.canonicalSize_object]
  simp [Json.memberBytes, h, itemNames.2.1, metadataNames.2.1, metadataBytes]
  omega

/-- The changed fields take twenty-nine bytes. -/
theorem canonicalSize_recorded {rejections : List Rejection} {items : List Json} {sizes : List Nat}
    (h : canonicalSize (.array items) = some (listBytes sizes)) :
    canonicalSize (.object (("changed_fields", strings ["results"]) :: metadataOf rejections items)) =
      some (metadataBytes rejections sizes) := by
  rw [metadataOf, Json.canonicalSize_object]
  simp [Json.memberBytes, h, itemNames.2.1, metadataNames.2.1, metadataNames.2.2.1, metadataNames.2.2.2, metadataBytes,
    listBytes]
  omega

theorem dumpsSize_metadataOf (rejections : List Rejection) :
    dumpsSize (.object (metadataOf rejections (rejections.map (digestItem sha256_json)))) + 29 =
      metadataBytes rejections (rejections.map (·.digestBytes)) + blanks rejections := by
  have hitems : (rejections.map fun r => dumpsSize (digestItem sha256_json r)).sum =
      (rejections.map (·.digestBytes)).sum + (rejections.map fun r => 7 + (r.reason_codes.length - 1)).sum := by
    rw [← List.sum_map_add]
    simp only [dumpsSize_digestItem]
  rw [metadataOf, Json.dumpsSize_object]
  simp only [Json.dumpsMemberBytes, dumpsSize_strings, Json.dumpsSize_array_map, hitems, itemNames.2.1, metadataNames.2.1,
    metadataBytes, blanks, listBytes, List.length_map, List.length_cons, List.length_nil]
  omega

/-! ### When a rejection is recorded -/

/-- The metadata that is recorded has these bytes. -/
def recordedBytes (rejections : List Rejection) : Nat :=
  let whole := metadataBytes rejections (rejections.map (·.itemBytes))
  if max_audit_metadata_bytes + 29 < whole then metadataBytes rejections (kept rejections) else whole

theorem canonicalSize_audit_metadata (rejections : List Rejection) :
    canonicalSize (.object (("changed_fields", strings ["results"]) :: audit_metadata sha256_json rejections)) =
      some (recordedBytes rejections) := by
  have hwhole := canonicalSize_items rejections fun r _ => @canonicalSize_auditItem sha256_json r
  have hdigests := fun rs : List Rejection =>
    canonicalSize_items rs fun r _ => @canonicalSize_digestItem sha256_json r
  have hdumps := @dumpsSize_metadataOf sha256_json rejections
  have hlarge : max_audit_metadata_bytes < metadataBytes rejections (rejections.map (·.itemBytes)) - 29 ↔
      max_audit_metadata_bytes + 29 < metadataBytes rejections (rejections.map (·.itemBytes)) := by omega
  rw [audit_metadata, bounded_audit_metadata_of_size (canonicalSize_metadataOf hwhole), recordedBytes]
  by_cases hfits : max_audit_metadata_bytes + 29 < metadataBytes rejections (rejections.map (·.itemBytes))
  · simp only [if_pos (hlarge.mpr hfits), if_pos hfits, kept]
    by_cases hmany : max_audit_metadata_bytes <
        dumpsSize (.object (metadataOf rejections (rejections.map (digestItem sha256_json))))
    · rw [if_pos hmany, if_pos (by omega), ← List.map_take, ← List.map_take]
      exact canonicalSize_recorded (hdigests _)
    · rw [if_neg hmany, if_neg (by omega)]
      exact canonicalSize_recorded (hdigests _)
  · simp only [if_neg (hfits ∘ hlarge.mp), if_neg hfits]
    exact canonicalSize_recorded hwhole

variable {db : Database} {owner_id : String} {hunt_id : Uuid} {expected_state : HuntState} {row : HuntRow}

/-- The results of a hunt in the expected state are updated if the metadata of the change is accepted. -/
theorem update_results (hrow : db.owned owner_id hunt_id = some row) (hstate : row.state = expected_state)
    (results : Results) (now : Instant) (metadata : Members) :
    ∃ updated, update db owner_id hunt_id expected_state { results := some results, updated_at_utc := now } metadata =
      (bounded_audit_metadata (("changed_fields", strings ["results"]) :: metadata)).map fun m => (updated, some m) := by
  have hmatches : ({ state := some expected_state } : Expect).matches row = true := by
    simp [Expect.matches, hstate]
  have hselect : Audit.select db owner_id hunt_id { state := some expected_state } =
      some ⟨row.state, row.plan_version, row.report_state, row.report_version⟩ := by
    simp [Audit.select, hrow, Option.filter, hmatches]
  simp only [update, hselect, Database.updateHunt, hrow, hmatches, if_true, Audit.changed_fields]
  exact ⟨_, rfl⟩

/-- Recording rejections either succeeds or exceeds the size bound. -/
theorem persist_policy_rejections_eq (sha256_json : Json → Digest) {rejections : List Rejection}
    (hsome : rejections ≠ []) (now : Instant) (hrow : db.owned owner_id hunt_id = some row)
    (hstate : row.state = expected_state) :
    ∃ result, persist_policy_rejections sha256_json db owner_id hunt_id rejections expected_state now =
      if max_audit_metadata_bytes < recordedBytes rejections then
        .error (.value_error "audit metadata exceeds the 32768-byte limit")
      else .ok result := by
  rw [persist_policy_rejections, if_neg (by simpa using hsome), hrow]
  obtain ⟨updated, hupdate⟩ := update_results hrow hstate _ now (audit_metadata sha256_json rejections)
  rw [bounded_audit_metadata_of_size (canonicalSize_audit_metadata rejections)] at hupdate
  by_cases hlarge : max_audit_metadata_bytes < recordedBytes rejections
  · simp only [if_pos hlarge] at hupdate ⊢
    exact ⟨(updated, none), hupdate⟩
  · simp only [if_neg hlarge] at hupdate ⊢
    exact ⟨_, hupdate⟩

theorem fits_iff (rejections : List Rejection) :
    Fits rejections ↔ recordedBytes rejections ≤ max_audit_metadata_bytes := by
  rw [Fits, recordedBytes]
  split <;> omega

/-- A proposal for a question that is not open, with a purpose of this many letters. -/
def sampleProposal (letters : Nat) : Proposal where
  toQueryProposal := { Spl.singleSourceProposal "search index=main sourcetype=a" with
    purpose := List.replicate letters 'x' }
  expected_information_gain := "gain".toList

/-- Its rejection. -/
def sampleRejection (letters : Nat) : Rejection where
  query_id := some "3f0c8a52-6b1d-4e7a-9c2f-5d8e1b4a7c60"
  proposal := sampleProposal letters
  reason_codes := ["question_not_open"]
  query_policy_version := some "1.5"

/-- A digest; the samples are recorded without one. -/
def sampleDigest : Digest where
  hex := "e3b0c44298fc1c149afbf4c8996fb92427ae41e4649b934ca495991b7852b855"
  length := by decide
  digits := by decide

/-- A proposal has the bytes of its purpose, and of the rest of it. -/
theorem Proposal.bytes_purpose (p : Proposal) (purpose : Text) :
    ({ p with purpose } : Proposal).bytes + 2 =
      ({ p with purpose := [] } : Proposal).bytes + textBytes (String.ofList purpose) := by
  obtain ⟨n, hint⟩ : ∃ n, canonicalSize (.int p.max_results) = some n := ⟨_, rfl⟩
  have hempty : textBytes (String.ofList []) = 2 := by decide
  simp only [bytes, members, Json.memberBytes, Json.canonicalSize_string, canonicalSize_textArray, hint, hempty]
  simp
  omega

theorem sampleProposal_bytes (letters : Nat) : (sampleProposal letters).bytes = 306 + letters := by
  have hpurpose := Proposal.bytes_purpose (sampleProposal 0) (List.replicate letters 'x')
  have hbase : ({ sampleProposal 0 with purpose := [] } : Proposal).bytes = 306 := by decide
  have hplain : ∀ c ∈ List.replicate letters 'x', Json.escape c = [c] ∧ c.utf8Size = 1 := by
    intro c hc
    rw [List.eq_of_mem_replicate hc]
    decide
  rw [hbase, Json.textBytes_of_plain (by simpa using hplain), String.toList_ofList, List.length_replicate] at hpurpose
  exact Nat.add_right_cancel (hpurpose.trans (by omega))

/-- One rejection, short enough for a record of its own, is recorded as it is. -/
theorem sampleRejection_bytes {letters : Nat} (h : letters ≤ 32279) :
    recordedBytes [sampleRejection letters] = 518 + letters := by
  have hmax : max_audit_metadata_bytes = 32768 := rfl
  have hfields : (sampleRejection letters).fieldBytes = 64 := by
    show (sampleRejection 0).fieldBytes = 64
    decide
  have hcodes : listBytes ((reason_codes [sampleRejection letters]).map textBytes) = 21 := by
    show listBytes ((reason_codes [sampleRejection 0]).map textBytes) = 21
    decide
  have hraw : (sampleRejection letters).rawBytes = 435 + letters := by
    show 65 + (sampleRejection letters).fieldBytes + (sampleProposal letters).bytes = _
    rw [hfields, sampleProposal_bytes]
    omega
  have hitem : (sampleRejection letters).itemBytes = 435 + letters := by
    rw [Rejection.itemBytes, hraw, if_pos (by omega)]
  have hwhole : metadataBytes [sampleRejection letters] [(sampleRejection letters).itemBytes] = 518 + letters := by
    rw [metadataBytes, hcodes, hitem]
    simp [listBytes]
    omega
  rw [recordedBytes, List.map_singleton, hwhole, if_neg (by omega)]

end

end PolicyRejections

end ThreatHunting
