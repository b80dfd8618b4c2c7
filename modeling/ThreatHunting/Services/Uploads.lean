import ThreatHunting.Domain.Common
import ThreatHunting.Lib.Ownership
import ThreatHunting.Text

/-!
# ThreatHunting.Services.Uploads

`UploadService.save` of `services/uploads.py`. A save draws an id, writes the file of that id, and
in one transaction charges the quota of the owner's hunt and inserts the row; whatever fails after
the file was opened, it removes the file. Each client owns its id, so what it leaves behind is its
own doing, and the quota only changes together with the rows it counts.
-/

namespace ThreatHunting

open Store

namespace Uploads

abbrev Bytes := List UInt8

/-! ### Validation and extraction -/

/-- What a save raises. -/
inductive SaveError
  | upload_error (message : String)
  | file_exists
  | os_error
  | database_error
  deriving DecidableEq

/-- `UploadLimits`. -/
structure UploadLimits where
  per_file_bytes : Nat := 25 * 1024 * 1024
  file_count : Nat := 10
  total_bytes : Nat := 100 * 1024 * 1024
  extracted_text_characters : Nat := 2000000
  max_zip_entries : Nat := 2000
  max_uncompressed_bytes : Nat := 100 * 1024 * 1024

/-- `SUPPORTED_TYPES`. -/
def SUPPORTED_TYPES : List (String × String) :=
  [(".pdf", "application/pdf"),
   (".docx", "application/vnd.openxmlformats-officedocument.wordprocessingml.document"),
   (".xlsx", "application/vnd.openxmlformats-officedocument.spreadsheetml.sheet"),
   (".csv", "text/csv"), (".tsv", "text/tab-separated-values"), (".txt", "text/plain"),
   (".md", "text/markdown"), (".json", "application/json"), (".yaml", "application/yaml"),
   (".yml", "application/yaml")]

/-- An entry of an archive, as `zipfile` lists it, with its data. -/
structure ZipInfo where
  filename : Text
  is_dir : Bool
  file_size : Nat
  compress_size : Nat
  data : Bytes

/-- The decoders and parsers `_extract` uses. -/
structure Codecs where
  /-- `bytes.decode("utf-8")`. -/
  utf8 : Bytes → Option Text
  /-- `bytes.decode("utf-8", "ignore")`. -/
  utf8_ignore : Bytes → Text
  /-- `zipfile.ZipFile`; `none` is `BadZipFile`. -/
  zip_file : Bytes → Option (List ZipInfo)
  /-- Does `json.loads` accept the text? -/
  json_loads : Text → Bool
  /-- Does `yaml.safe_load` accept the text? -/
  safe_load : Text → Bool

/-- `UploadService`: its limits, and whether a relative path resolves to a target under the root. -/
structure UploadService extends Codecs where
  limits : UploadLimits
  under_root : String → Bool
  /-- SHA-256 of a file. -/
  sha256 : Bytes → String

/-- The components of a path that `PurePosixPath.parts` keeps. -/
def pathParts (path : Text) : List Text :=
  (path.splitOnP (· == '/')).filter fun part => !part.isEmpty && part != ['.']

/-- `Path(filename).suffix`. -/
def suffixOf (filename : Text) : Text :=
  let name := (pathParts filename).getLastD []
  let after := (name.reverse.takeWhile (· != '.')).reverse
  if '.' ∈ name ∧ after ≠ [] ∧ after.length + 1 < name.length then '.' :: after else []

/-- `_validate_filename`, whose second check compares the suffix with itself. -/
def validate_filename (filename suffix : Text) : Except SaveError Unit :=
  if filename.isEmpty || filename.length > 500 || filename.any (· ∈ ['/', '\\', '\x00'])
      || filename.any (·.val.toNat < 32) then
    .error (.upload_error "filename is invalid")
  else if suffix ≠ casefold (suffixOf filename) then .error (.upload_error "filename extension is invalid")
  else .ok ()

/-- `re.findall(rb"\(([^()]*)\)", content)`, for contents of at most `fuel` bytes. -/
def fragmentsWithin : Nat → Bytes → List Bytes
  | 0, _ => []
  | _ + 1, [] => []
  | fuel + 1, b :: rest =>
      let inner := rest.takeWhile fun c => c != 40 && c != 41
      match b == 40, rest.drop inner.length with
      | true, 41 :: tail => inner :: fragmentsWithin fuel tail
      | _, _ => fragmentsWithin fuel rest

def fragments (content : Bytes) : List Bytes := fragmentsWithin content.length content

/-- `re.sub(r"<[^>]+>", " ", text)`, for texts of at most `fuel` characters. -/
def untagWithin : Nat → Text → Text
  | 0, _ => []
  | _ + 1, [] => []
  | fuel + 1, c :: rest =>
      let inner := rest.takeWhile (· != '>')
      match c == '<' && !inner.isEmpty, rest.drop inner.length with
      | true, '>' :: tail => ' ' :: untagWithin fuel tail
      | _, _ => c :: untagWithin fuel rest

def untag (text : Text) : Text := untagWithin text.length text

namespace UploadService

variable (service : UploadService)

/-- The loop of `_extract_zip_text` over the entries of the archive. -/
def zip_chunks : List ZipInfo → Nat → Except SaveError (List Text)
  | [], _ => .ok []
  | info :: rest, total =>
      if info.is_dir || info.filename.head? == some '/' || info.filename.head? == some '\\'
          || (pathParts info.filename).contains ['.', '.'] then
        .error (.upload_error "document contains an unsafe archive path")
      else if ["vbaProject.bin", ".exe", ".dll"].any fun s => s.toList.isSuffixOf (lower info.filename) then
        .error (.upload_error "active document content is not supported")
      else if total + info.file_size > service.limits.max_uncompressed_bytes
          || (info.compress_size != 0 && info.file_size > info.compress_size * 1000) then
        .error (.upload_error "document decompression limit exceeded")
      else do
        let chunks ← zip_chunks rest (total + info.file_size)
        if ["document.xml", "sharedStrings.xml", "sheet1.xml"].any fun s => s.toList.isSuffixOf info.filename then
          .ok (service.utf8_ignore info.data :: chunks)
        else .ok chunks

/-- `_extract_zip_text`. -/
def extract_zip_text (content : Bytes) : Except SaveError Text := do
  let some archive := service.zip_file content
    | .error (.upload_error "document archive is malformed")
  if archive.length > service.limits.max_zip_entries then
    .error (.upload_error "document contains too many archive entries")
  let text := untag (join " " (← service.zip_chunks archive 0))
  if (strip text).isEmpty then .error (.upload_error "document contains no extractable text")
  .ok text

/-- `_extract`: the detected type, the text, and the format named in the metadata. -/
def extract (suffix : Text) (expected : String) (content : Bytes) (declared_type : Option String) :
    Except SaveError (String × Text × Text) := do
  let format := suffix.drop 1
  if suffix = ".pdf".toList then
    if !("%PDF-".toUTF8.toList.isPrefixOf content) then
      .error (.upload_error "file content does not match its extension")
    let text := join " " ((fragments content).map service.utf8_ignore)
    if (strip text).isEmpty then .error (.upload_error "PDF contains no extractable text")
    .ok (expected, text, format)
  else if suffix = ".docx".toList ∨ suffix = ".xlsx".toList then
    if !("PK".toUTF8.toList.isPrefixOf content) then
      .error (.upload_error "file content does not match its extension")
    .ok (expected, ← service.extract_zip_text content, format)
  else
    let some text := service.utf8 content | .error (.upload_error "text upload must be valid UTF-8")
    if suffix = ".json".toList ∧ !service.json_loads text then .error (.upload_error "JSON is malformed")
    if (suffix = ".yaml".toList ∨ suffix = ".yml".toList) ∧ !service.safe_load text then
      .error (.upload_error "YAML is malformed")
    match declared_type.filter (· ≠ "") with
    | none => .ok (expected, text, format)
    | some declared =>
        if declared ∉ [expected, "application/octet-stream", "text/plain"] ∧ !declared.startsWith "text/" then
          .error (.upload_error "declared content type does not match the extension")
        else .ok (expected, text, format)

end UploadService

/-- The arguments of a save. -/
structure SaveRequest where
  owner_id : String
  hunt_id : String
  filename : Text
  content : Bytes
  content_type : Option String

/-- The checks of `save` before it draws an id. -/
def UploadService.admit (service : UploadService) (request : SaveRequest) :
    Except SaveError (String × Text × Text) := do
  let suffix := casefold (suffixOf request.filename)
  validate_filename request.filename suffix
  let some (_, expected) := SUPPORTED_TYPES.find? (·.1.toList = suffix)
    | .error (.upload_error "unsupported upload type")
  if request.content.length > service.limits.per_file_bytes then
    .error (.upload_error "upload exceeds the per-file size limit")
  let extracted ← service.extract suffix expected request.content request.content_type
  if extracted.2.1.length > service.limits.extracted_text_characters then
    .error (.upload_error "extracted text exceeds the configured limit")
  .ok extracted

/-! ### The tables and the upload directory -/

/-- A row of `uploads` without its text, which is what a save returns. -/
structure UploadRecord where
  upload_id : Uuid
  owner_id : String
  hunt_id : String
  original_filename : Text
  detected_type : String
  byte_size : Nat
  sha256 : String
  uploader_id : String
  uploaded_at_utc : Instant
  parser_version : String := "builtin-1"
  extraction_status : String := "complete"
  extraction_error : Option String := none
  storage_path : String
  /-- The `format` entry of `metadata`. -/
  format : Text

/-- A row of `uploads`. -/
structure UploadRow extends UploadRecord where
  extracted_text : Text

/-- A row of `upload_quotas`, without its key. -/
structure Quota where
  file_count : Nat := 0
  total_bytes : Nat := 0
  deriving DecidableEq

/-- The path of an upload's file. -/
structure StoragePath where
  owner_id : String
  upload_id : Uuid
  deriving DecidableEq

/-- The path relative to the root. -/
def StoragePath.relative (path : StoragePath) : String :=
  "uploads/" ++ path.owner_id ++ "/" ++ path.upload_id ++ ".bin"

/-- The two tables, the quotas by their primary key, and the files under the root. -/
structure UploadStore where
  uploads : List UploadRow
  upload_quotas : String × String → Option Quota
  files : StoragePath → Option Bytes

namespace UploadStore

/-- A new database and a new directory. -/
def empty : UploadStore := ⟨[], fun _ => none, fun _ => none⟩

variable (s : UploadStore)

/-- The uploads of an owner's hunt. -/
def uploadsOf (key : String × String) : List UploadRow :=
  s.uploads.filter fun row => row.owner_id = key.1 ∧ row.hunt_id = key.2

/-- The quota of an owner's hunt, which is nothing before its row is there. -/
def quotaOf (key : String × String) : Quota := (s.upload_quotas key).getD {}

/-- `_reserve_quota`; `none` is a row count other than one. The insertion that does nothing on a
conflict makes the row; the update charges it. -/
def reserve_quota (limits : UploadLimits) (key : String × String) (byte_size : Nat) : Option UploadStore :=
  let quota := s.quotaOf key
  if quota.file_count < limits.file_count ∧ quota.total_bytes + byte_size ≤ limits.total_bytes then
    let charged : Quota := ⟨quota.file_count + 1, quota.total_bytes + byte_size⟩
    some { s with upload_quotas := Function.update s.upload_quotas key (some charged) }
  else none

/-- `uploads.insert()`; `none` is a conflict on the primary key. -/
def insert (row : UploadRow) : Option UploadStore :=
  if ∃ other ∈ s.uploads, other.upload_id = row.upload_id then none
  else some { s with uploads := s.uploads ++ [row] }

/-- The file is replaced, or removed if there is no content. -/
def setFile (path : StoragePath) (content : Option Bytes) : UploadStore :=
  { s with files := Function.update s.files path content }

end UploadStore

/-- The file operations of a save, and its transaction. -/
inductive Access
  | create (path : StoragePath)
  | write (path : StoragePath) (content : Bytes)
  | record (limits : UploadLimits) (row : UploadRow)
  | unlink (path : StoragePath)

/-- The effect of an access; `none` is a file that exists, an exceeded quota or a key conflict. -/
def Access.effect : Access → UploadStore → Option UploadStore
  | .create path, s => if (s.files path).isSome then none else some (s.setFile path (some []))
  | .write path content, s => some (s.setFile path (some content))
  | .record limits row, s =>
      (s.reserve_quota limits (row.owner_id, row.hunt_id) row.byte_size).bind (·.insert row)
  | .unlink path, s => some (s.setFile path none)

/-- What a save asks: ids, the clock, and which of its steps fail. A transaction that fails, at a
statement or at its commit, is rolled back as a whole; the removal of the file succeeds. -/
inductive Ask
  | uuid4
  | now
  | mkdir_fails
  | open_fails
  | write_fails
  | transaction_fails
  deriving DecidableEq

/-- The type of each answer. -/
def Ask.Answer : Ask → Type
  | .uuid4 => Uuid
  | .now => Instant
  | .mkdir_fails | .open_fails | .write_fails | .transaction_fails => Bool

/-- The questions and accesses of the service. -/
def uploadSignature : Signature UploadStore where
  Question := Ask
  Answer := Ask.Answer
  Transaction := Access
  effect := Access.effect

abbrev Event := Store.Event uploadSignature
abbrev History := Store.History uploadSignature

/-- A procedure of the service, which remembers the id it has drawn. -/
abbrev Op (α : Type) := Proc uploadSignature (Option Uuid) SaveError α

/-- A call of `save`, under way or finished. -/
abbrev Call := Program uploadSignature (Except SaveError UploadRecord × Option Uuid)

namespace UploadService

variable (service : UploadService)

/-- Ask whether a step fails, and raise `e` if it does. -/
def attempt (fails : Op Bool) (e : SaveError) : Op Unit := do
  if ← fails then Proc.throw e else pure ()

/-- `mkdir(parents=True, exist_ok=True)`. -/
def mkdir : Op Unit := attempt (Proc.ask (S := uploadSignature) .mkdir_fails) .os_error

/-- `with target.open("xb")`: a write that fails leaves the file it opened. -/
def write_file (path : StoragePath) (content : Bytes) : Op Unit := do
  attempt (Proc.ask (S := uploadSignature) .open_fails) .os_error
  let created ← Proc.commit (S := uploadSignature) (.create path)
  if !created.2 then Proc.throw .file_exists
  else do
    attempt (Proc.ask (S := uploadSignature) .write_fails) .os_error
    let _ ← Proc.commit (S := uploadSignature) (.write path content)
    pure ()

/-- `with self.engine.begin()`: the reservation and the insertion. -/
def record (row : UploadRow) : Op Unit := do
  attempt (Proc.ask (S := uploadSignature) .transaction_fails) .database_error
  let recorded ← Proc.commit (S := uploadSignature) (.record service.limits row)
  if recorded.2 then pure ()
  else if (recorded.1.reserve_quota service.limits (row.owner_id, row.hunt_id) row.byte_size).isNone then
    Proc.throw (.upload_error "upload quota exceeded")
  else Proc.throw .database_error

/-- The `except` clause of `save`. -/
def clean_up (path : StoragePath) (e : SaveError) : Op Unit := do
  let _ ← Proc.commit (S := uploadSignature) (.unlink path)
  Proc.throw e

/-- The row a save inserts. -/
def uploadRow (request : SaveRequest) (extracted : String × Text × Text) (upload_id : Uuid) (now : Instant) :
    UploadRow where
  upload_id := upload_id
  owner_id := request.owner_id
  hunt_id := request.hunt_id
  original_filename := request.filename
  detected_type := extracted.1
  byte_size := request.content.length
  sha256 := service.sha256 request.content
  uploader_id := request.owner_id
  uploaded_at_utc := now
  storage_path := StoragePath.relative ⟨request.owner_id, upload_id⟩
  extracted_text := extracted.2.1
  format := extracted.2.2

/-- `save` once the upload is admitted. -/
def store (request : SaveRequest) (extracted : String × Text × Text) : Op UploadRecord := do
  let upload_id ← Proc.ask (S := uploadSignature) .uuid4
  Proc.modify fun _ => some upload_id
  let now ← Proc.ask (S := uploadSignature) .now
  let path : StoragePath := ⟨request.owner_id, upload_id⟩
  let row := service.uploadRow request extracted upload_id now
  if !service.under_root path.relative then Proc.throw (.upload_error "unsafe storage path")
  else do
    mkdir
    Proc.handle (do write_file path request.content; service.record row) (clean_up path)
    pure row.toUploadRecord

/-- `save`. -/
def save (request : SaveRequest) : Op UploadRecord := do
  let extracted ← Proc.ofExcept <| service.admit request
  service.store request extracted

/-- The calls of `save`. -/
def Saves (p : Call) : Prop := ∃ request, p = service.save request none

end UploadService

/-! ### What an access does -/

/-- Every quota counts the uploads of its owner's hunt, within the limits. -/
def QuotaExact (limits : UploadLimits) (s : UploadStore) : Prop :=
  ∀ key, s.quotaOf key = ⟨(s.uploadsOf key).length, ((s.uploadsOf key).map (·.byte_size)).sum⟩ ∧
    (s.quotaOf key).file_count ≤ limits.file_count ∧ (s.quotaOf key).total_bytes ≤ limits.total_bytes

/-- There is no row and no file of the id. -/
def NoTrace (s : UploadStore) (upload_id : Uuid) : Prop :=
  (∀ owner_id, s.files ⟨owner_id, upload_id⟩ = none) ∧ ∀ row ∈ s.uploads, row.upload_id ≠ upload_id

/-- The files and the rows of an id. -/
def UploadStore.trace (s : UploadStore) (upload_id : Uuid) : (String → Option Bytes) × List UploadRow :=
  (fun owner_id => s.files ⟨owner_id, upload_id⟩, s.uploads.filter (·.upload_id = upload_id))

/-- The upload an access is about. -/
def Access.upload_id : Access → Uuid
  | .create path | .write path _ | .unlink path => path.upload_id
  | .record _ row => row.upload_id

/-- Does the access charge quotas by these limits, if it charges any? -/
def Access.Within (limits : UploadLimits) : Access → Prop
  | .record l _ => l = limits
  | _ => True

theorem quotaExact_empty (limits : UploadLimits) : QuotaExact limits .empty :=
  fun _ => ⟨rfl, Nat.zero_le _, Nat.zero_le _⟩

/-- Files do not count. -/
theorem QuotaExact.setFile {limits : UploadLimits} {s : UploadStore} (hs : QuotaExact limits s)
    (path : StoragePath) (content : Option Bytes) : QuotaExact limits (s.setFile path content) := hs

/-- A recorded row was within the limits, and is new. -/
theorem effect_record {limits : UploadLimits} {row : UploadRow} {s s' : UploadStore}
    (h : Access.effect (.record limits row) s = some s') :
    (s.quotaOf (row.owner_id, row.hunt_id)).file_count < limits.file_count ∧
      (s.quotaOf (row.owner_id, row.hunt_id)).total_bytes + row.byte_size ≤ limits.total_bytes ∧
      s' = ⟨s.uploads ++ [row], Function.update s.upload_quotas (row.owner_id, row.hunt_id)
        (some ⟨(s.quotaOf (row.owner_id, row.hunt_id)).file_count + 1,
          (s.quotaOf (row.owner_id, row.hunt_id)).total_bytes + row.byte_size⟩), s.files⟩ := by
  simp only [Access.effect, UploadStore.reserve_quota, Option.bind_eq_some_iff] at h
  obtain ⟨charged, hcharged, hinsert⟩ := h
  split at hcharged
  case isFalse => cases hcharged
  case isTrue hlimits =>
    cases hcharged
    rw [UploadStore.insert] at hinsert
    split at hinsert
    case isTrue => cases hinsert
    case isFalse =>
      cases hinsert
      exact ⟨hlimits.1, hlimits.2, rfl⟩

/-- A recorded row is counted where it belongs, and nowhere else. -/
theorem QuotaExact.record {limits : UploadLimits} {row : UploadRow} {s s' : UploadStore}
    (hs : QuotaExact limits s) (h : Access.effect (.record limits row) s = some s') :
    QuotaExact limits s' := by
  obtain ⟨hcount, hbytes, rfl⟩ := effect_record h
  intro key
  obtain ⟨hquota, hwithin⟩ := hs key
  by_cases hkey : key = (row.owner_id, row.hunt_id)
  · subst hkey
    simp only [UploadStore.quotaOf, UploadStore.uploadsOf] at hquota hcount hbytes ⊢
    simp only [Function.update_self, Option.getD_some, List.filter_append, List.length_append, List.map_append,
      List.sum_append, hquota]
    rw [hquota] at hcount hbytes
    simp only [and_self, decide_true, List.filter_cons_of_pos, List.filter_nil, List.length_singleton,
      List.map_singleton, List.sum_singleton, true_and]
    exact ⟨hcount, hbytes⟩
  · have hother : ¬(row.owner_id = key.1 ∧ row.hunt_id = key.2) := fun hrow =>
      hkey (Prod.ext hrow.1.symm hrow.2.symm)
    simp only [UploadStore.quotaOf, UploadStore.uploadsOf] at hquota hwithin ⊢
    simp only [Function.update_of_ne hkey, List.filter_append, List.filter_cons, hother, decide_false,
      Bool.false_eq_true, if_false, List.filter_nil, List.append_nil]
    exact ⟨hquota, hwithin⟩

theorem QuotaExact.effect {limits : UploadLimits} {t : Access} {s s' : UploadStore}
    (hs : QuotaExact limits s) (ht : t.Within limits) (h : t.effect s = some s') : QuotaExact limits s' := by
  cases t with
  | create path =>
      simp only [Access.effect] at h
      split at h
      · cases h
      · cases h
        exact hs.setFile path _
  | write path content =>
      cases h
      exact hs.setFile path _
  | record l row =>
      cases ht
      exact hs.record h
  | unlink path =>
      cases h
      exact hs.setFile path _

theorem noTrace_iff {s : UploadStore} {upload_id : Uuid} :
    NoTrace s upload_id ↔ s.trace upload_id = (fun _ => none, []) := by
  simp only [NoTrace, UploadStore.trace, Prod.mk.injEq, funext_iff, List.filter_eq_nil_iff, decide_eq_true_eq, ne_eq]

theorem trace_setFile {s : UploadStore} {path : StoragePath} {content : Option Bytes} {upload_id : Uuid}
    (hid : path.upload_id ≠ upload_id) : (s.setFile path content).trace upload_id = s.trace upload_id := by
  refine Prod.ext (funext fun owner_id => ?_) rfl
  exact Function.update_of_ne (fun he => hid (congrArg StoragePath.upload_id he).symm) _ _

/-- An access leaves the files and rows of every other upload alone. -/
theorem trace_effect {t : Access} {s s' : UploadStore} {upload_id : Uuid} (h : t.effect s = some s')
    (hid : t.upload_id ≠ upload_id) : s'.trace upload_id = s.trace upload_id := by
  cases t with
  | create path =>
      simp only [Access.effect] at h
      split at h
      · cases h
      · cases h
        exact trace_setFile hid
  | write path content =>
      cases h
      exact trace_setFile hid
  | record limits row =>
      obtain ⟨-, -, rfl⟩ := effect_record h
      have hrow : ¬row.upload_id = upload_id := hid
      simp [UploadStore.trace, List.filter_append, hrow]
  | unlink path =>
      cases h
      exact trace_setFile hid

/-! ### Clients and their ids -/

/-- The event drew the id. -/
def Draws (upload_id : Uuid) : Event → Prop
  | .answered .uuid4 drawn => drawn = upload_id
  | _ => False

instance (upload_id : Uuid) : DecidablePred (Draws upload_id)
  | .answered .uuid4 drawn => instDecidableEqString drawn upload_id
  | .answered .now _ | .answered .mkdir_fails _ | .answered .open_fails _ | .answered .write_fails _
  | .answered .transaction_fails _ | .committed _ _ _ => isFalse id

/-- The id was drawn. -/
def Drawn (upload_id : Uuid) (past : List Event) : Prop := ∃ e ∈ past, Draws upload_id e

instance Drawn.decidable (upload_id : Uuid) (past : List Event) : Decidable (Drawn upload_id past) :=
  List.decidableBEx (Draws upload_id) past

theorem Drawn.cons {upload_id : Uuid} {past : List Event} {e : Event} (h : Drawn upload_id past) :
    Drawn upload_id (e :: past) := by
  obtain ⟨drawing, he, hd⟩ := h
  exact ⟨drawing, List.mem_cons_of_mem _ he, hd⟩

/-- `uuid4` draws no id twice. -/
def Fresh (past : List Event) : Event → Prop
  | .answered .uuid4 upload_id => ¬Drawn upload_id past
  | _ => True

instance (past : List Event) : DecidablePred (Fresh past)
  | .answered .uuid4 upload_id => @instDecidableNot _ (Drawn.decidable upload_id past)
  | .answered .now _ | .answered .mkdir_fails _ | .answered .open_fails _ | .answered .write_fails _
  | .answered .transaction_fails _ | .committed _ _ _ => isTrue trivial

/-- Each id with its files and rows belongs to the call that drew it; no other id has any. -/
def estate (limits : UploadLimits) : Estate uploadSignature Uuid ((String → Option Bytes) × List UploadRow) where
  admits := Fresh
  inv h := QuotaExact limits h.now ∧ ∀ upload_id, ¬Drawn upload_id h.past → NoTrace h.now upload_id
  view upload_id h := h.now.trace upload_id
  taken upload_id h := Drawn upload_id h.past

section Calls

variable {limits : UploadLimits} {own : Set Uuid} {h : History}

theorem conducts_commit {t : Access} {s : UploadStore} (hI : (estate limits).inv h) (ht : t.Within limits)
    (hid : t.upload_id ∈ own) (hown : ∀ r ∈ own, Drawn r h.past) (htx : t.effect h.now = some s) :
    (estate limits).Conducts own own h (h.commit t s) where
  inv := by
    refine ⟨hI.1.effect ht htx, fun upload_id hd => ?_⟩
    have hbefore : ¬Drawn upload_id h.past := fun hd' => hd hd'.cons
    have hne : t.upload_id ≠ upload_id := fun he => hbefore (he ▸ hown _ hid)
    rw [noTrace_iff]
    exact (trace_effect htx hne).trans (noTrace_iff.mp (hI.2 upload_id hbefore))
  view := fun r hr => trace_effect htx fun he => hr (he ▸ hid)
  acquired := fun _ hr hr' => absurd hr hr'
  owned := fun r hr => (hown r hr).cons
  taken := fun _ hr => hr.cons

theorem conducts_answer {q : Ask} {a : q.Answer} (hI : (estate limits).inv h)
    (hown : ∀ r ∈ own, Drawn r h.past) : (estate limits).Conducts own own h (h.answer q a) where
  inv := ⟨hI.1, fun upload_id hd => hI.2 upload_id fun hd' => hd hd'.cons⟩
  view := fun _ _ => rfl
  acquired := fun _ hr hr' => absurd hr hr'
  owned := fun r hr => (hown r hr).cons
  taken := fun _ hr => hr.cons

theorem conducts_uuid4 {upload_id : Uuid} (hI : (estate limits).inv h) (hd : ¬Drawn upload_id h.past) :
    (estate limits).Conducts ∅ {upload_id} h (h.answer .uuid4 upload_id) where
  inv := ⟨hI.1, fun upload_id hd => hI.2 upload_id fun hd' => hd hd'.cons⟩
  view := fun _ _ => rfl
  acquired := by
    rintro r rfl -
    exact hd
  owned := by
    rintro r rfl
    exact ⟨_, List.mem_cons_self, rfl⟩
  taken := fun _ hr => hr.cons

end Calls

/-! ### What a save leaves behind -/

/-- The call owns the id of this path, has inserted no row, and has no file but at the path. -/
structure Holds (path : StoragePath) (m : Option Uuid) (own : Set Uuid) (h : History) : Prop where
  drawn : m = some path.upload_id ∧ Drawn path.upload_id h.past
  own : own = {path.upload_id}
  files : ∀ owner_id, owner_id ≠ path.owner_id → h.now.files ⟨owner_id, path.upload_id⟩ = none
  rows : ∀ row ∈ h.now.uploads, row.upload_id ≠ path.upload_id

/-- There is no file at the path either. -/
structure Unwritten (path : StoragePath) (m : Option Uuid) (own : Set Uuid) (h : History) : Prop
    extends Holds path m own h where
  unwritten : h.now.files path = none

/-- A failed save was refused before it drew an id, or left no trace of its id. -/
def Left (service : UploadService) (e : SaveError) (m : Option Uuid) (s : UploadStore) : Prop :=
  (m = none → ∃ request, service.admit request = .error e) ∧ ∀ upload_id ∈ m, NoTrace s upload_id

/-- The same, of a call that still owns its id. -/
def Failed (service : UploadService) (e : SaveError) (m : Option Uuid) (own : Set Uuid) (h : History) : Prop :=
  Left service e m h.now ∧ ∀ upload_id ∈ m, upload_id ∈ own

/-- What others do between two steps does not falsify the assertion. -/
def Steady (limits : UploadLimits) (P : Option Uuid → Set Uuid → History → Prop) : Prop :=
  ∀ {m own h h'}, (estate limits).Undisturbed own h h' → P m own h → P m own h'

theorem undisturbed_answer {limits : UploadLimits} {own : Set Uuid} {h : History} {q : Ask} {a : q.Answer} :
    (estate limits).Undisturbed own h (h.answer q a) where
  past := List.suffix_cons _ _
  view := fun _ _ => rfl
  taken := fun _ ht => ht.cons

theorem Holds.steady {limits : UploadLimits} {path : StoragePath} : Steady limits (Holds path) := by
  intro m own h h' hu hp
  have hview := hu.view path.upload_id (hp.own ▸ rfl)
  have hfiles := congrArg Prod.fst hview
  have hrows : h'.now.uploads.filter (·.upload_id = path.upload_id) =
    h.now.uploads.filter (·.upload_id = path.upload_id) := congrArg Prod.snd hview
  refine ⟨⟨hp.drawn.1, hu.taken _ hp.drawn.2⟩, hp.own, fun owner_id hne => ?_, fun row hrow he => ?_⟩
  · exact (congrFun hfiles owner_id).trans (hp.files owner_id hne)
  · have hmem : row ∈ h'.now.uploads.filter (·.upload_id = path.upload_id) :=
      List.mem_filter.mpr ⟨hrow, by simpa using he⟩
    rw [hrows] at hmem
    exact hp.rows row (List.mem_filter.mp hmem).1 he

theorem Unwritten.steady {limits : UploadLimits} {path : StoragePath} : Steady limits (Unwritten path) := by
  intro m own h h' hu hp
  have hview := hu.view path.upload_id (hp.own ▸ rfl)
  exact ⟨hp.toHolds.steady hu, (congrFun (congrArg Prod.fst hview) path.owner_id).trans hp.unwritten⟩

theorem Holds.owned {path : StoragePath} {m : Option Uuid} {own : Set Uuid} {h : History}
    (hp : Holds path m own h) : path.upload_id ∈ own ∧ ∀ r ∈ own, Drawn r h.past := by
  rw [hp.own]
  refine ⟨rfl, ?_⟩
  rintro r rfl
  exact hp.drawn.2

theorem Unwritten.noTrace {path : StoragePath} {m : Option Uuid} {own : Set Uuid} {h : History}
    (hp : Unwritten path m own h) : NoTrace h.now path.upload_id := by
  refine ⟨fun owner_id => ?_, hp.rows⟩
  by_cases hne : owner_id = path.owner_id
  · rw [hne]
    exact hp.unwritten
  · exact hp.files owner_id hne

theorem Unwritten.failed {service : UploadService} {path : StoragePath} {m : Option Uuid} {own : Set Uuid}
    {h : History} (hp : Unwritten path m own h) (e : SaveError) : Failed service e m own h := by
  rw [hp.drawn.1]
  refine ⟨⟨nofun, ?_⟩, ?_⟩
  · rintro _ ⟨rfl⟩
    exact hp.noTrace
  · rintro _ ⟨rfl⟩
    exact hp.owned.1

theorem Failed.steady {service : UploadService} {e : SaveError} : Steady service.limits (Failed service e) := by
  intro m own h h' hu hp
  refine ⟨⟨hp.1.1, fun upload_id hid => ?_⟩, hp.2⟩
  rw [noTrace_iff]
  exact (hu.view upload_id (hp.2 upload_id hid)).trans (noTrace_iff.mp (hp.1.2 upload_id hid))

section Procedures

variable {service : UploadService} {path : StoragePath} {m : Option Uuid} {own : Set Uuid} {h : History}

/-- A question other than for an id changes nothing. -/
theorem minds_question {limits : UploadLimits} {P : Option Uuid → Set Uuid → History → Prop}
    {X : SaveError → Option Uuid → Set Uuid → History → Prop} (hs : Steady limits P)
    (hown : ∀ {m own h}, P m own h → ∀ r ∈ own, Drawn r h.past) (q : Ask) (hP : P m own h) :
    (Proc.ask (S := uploadSignature) q : Proc uploadSignature _ _ _).Minds (estate limits) m own h (fun _ => P) X :=
  Proc.minds_ask fun _ hu hI _ _ =>
    have hP' := hs hu hP
    ⟨own, conducts_answer hI (hown hP'), hs undisturbed_answer hP'⟩

/-- A step that may fail raises where it was asked to. -/
theorem minds_attempt {limits : UploadLimits} {P : Option Uuid → Set Uuid → History → Prop}
    {X : SaveError → Option Uuid → Set Uuid → History → Prop} {fails : Op Bool} {e : SaveError}
    (hfails : fails.Minds (estate limits) m own h (fun _ => P) X)
    (hX : ∀ {m own h}, P m own h → X e m own h) :
    (UploadService.attempt fails e).Minds (estate limits) m own h (fun _ => P) X := by
  refine Proc.Minds.seq hfails fun failed m' own' h' hP => ?_
  cases failed with
  | true => exact Proc.minds_throw (hX hP)
  | false => exact Proc.minds_pure hP

/-- A step on the file at the path, after which the file has the content. -/
theorem minds_file {limits : UploadLimits} {X : SaveError → Option Uuid → Set Uuid → History → Prop}
    {t : Access} (content : Option Bytes) (hid : t.upload_id = path.upload_id) (ht : t.Within limits)
    (heffect : ∀ s s', t.effect s = some s' → s' = s.setFile path content) (hP : Holds path m own h) :
    (Proc.commit (S := uploadSignature) t).Minds (estate limits) m own h
      (fun _ m own h => Holds path m own h ∧ (h.now.files path = content ∨ ∃ s, t.effect s = none)) X := by
  refine Proc.minds_commit ?_ ?_
  · intro h' hu hI s htx _
    have hP' := Holds.steady hu hP
    refine ⟨own, conducts_commit hI ht (hid ▸ hP'.owned.1) hP'.owned.2 htx, ?_⟩
    rw [heffect _ _ htx]
    refine ⟨⟨⟨hP'.drawn.1, hP'.drawn.2.cons⟩, hP'.own, fun owner_id hne => ?_, hP'.rows⟩, ?_⟩
    · have hpath : (⟨owner_id, path.upload_id⟩ : StoragePath) ≠ path := fun he =>
        hne (congrArg StoragePath.owner_id he)
      exact (Function.update_of_ne hpath _ _).trans (hP'.files owner_id hne)
    · exact .inl (Function.update_self _ _ _)
  · intro h' hu _ href
    exact ⟨Holds.steady hu hP, .inr ⟨_, href⟩⟩

/-- While the file is opened and written, no row is inserted. -/
theorem write_file_minds {content : Bytes} (hP : Holds path m own h) :
    (UploadService.write_file path content).Minds (estate service.limits) m own h
      (fun _ => Holds path) fun _ => Holds path := by
  refine Proc.Minds.seq (minds_attempt (P := Holds path) (minds_question (P := Holds path) Holds.steady (fun hp => hp.owned.2) _ hP) fun hp => hp) ?_
  intro _ m₁ own₁ h₁ hP₁
  refine Proc.Minds.seq (minds_file (t := .create path) (some []) rfl trivial ?_ hP₁) ?_
  · intro s s' h
    simp only [Access.effect] at h
    split at h
    · cases h
    · exact (Option.some.inj h).symm
  · rintro ⟨_, created⟩ m₂ own₂ h₂ ⟨hP₂, -⟩
    cases created with
    | false => exact Proc.minds_throw hP₂
    | true =>
        refine Proc.Minds.seq (minds_attempt (P := Holds path) (minds_question (P := Holds path) Holds.steady (fun hp => hp.owned.2) _ hP₂) fun hp => hp) ?_
        intro _ m₃ own₃ h₃ hP₃
        refine Proc.Minds.seq (minds_file (t := .write path content) (some content) rfl trivial ?_ hP₃)
          fun _ _ _ _ hP₄ => Proc.minds_pure hP₄.1
        exact fun s s' h => (Option.some.inj h).symm

/-- A transaction that is refused or fails inserts no row. -/
theorem record_minds {row : UploadRow} (hrow : row.upload_id = path.upload_id) (hP : Holds path m own h) :
    (service.record row).Minds (estate service.limits) m own h (fun _ _ _ _ => True) fun _ => Holds path := by
  refine Proc.Minds.seq (minds_attempt (P := Holds path) (minds_question (P := Holds path) Holds.steady (fun hp => hp.owned.2) _ hP) fun hp => hp) ?_
  intro _ m₁ own₁ h₁ hP₁
  refine Proc.Minds.seq (T := fun r m own h => r.2 = false → Holds path m own h) (Proc.minds_commit ?_ ?_) ?_
  · intro h' hu hI s htx _
    have hP' := Holds.steady hu hP₁
    have hid : Access.upload_id (.record service.limits row) ∈ own₁ := by
      rw [Access.upload_id, hrow]
      exact hP'.owned.1
    exact ⟨own₁, conducts_commit hI rfl hid hP'.owned.2 htx, nofun⟩
  · exact fun h' hu _ _ _ => Holds.steady hu hP₁
  · rintro ⟨s, recorded⟩ m₂ own₂ h₂ hP₂
    cases recorded with
    | true => exact Proc.minds_pure trivial
    | false =>
        refine Proc.minds_ite nofun fun _ => ?_
        exact Proc.minds_ite (fun _ => Proc.minds_throw (hP₂ rfl)) fun _ => Proc.minds_throw (hP₂ rfl)

/-- The clean-up leaves no trace. -/
theorem clean_up_minds {e : SaveError} (hP : Holds path m own h) :
    (UploadService.clean_up path e).Minds (estate service.limits) m own h
      (fun _ _ _ _ => True) (Failed service) := by
  refine Proc.Minds.seq (minds_file (t := .unlink path) none rfl trivial ?_ hP) ?_
  · exact fun s s' h => (Option.some.inj h).symm
  · rintro _ m₁ own₁ h₁ ⟨hP₁, hgone | ⟨s, href⟩⟩
    · exact Proc.minds_throw (Unwritten.failed ⟨hP₁, hgone⟩ e)
    · cases href

/-- A save that fails leaves nothing behind. -/
theorem save_minds (request : SaveRequest) :
    (service.save request).Minds (estate service.limits) none ∅ h (fun _ _ _ _ => True) (Failed service) := by
  refine Proc.Minds.seq (T := fun _ m own _ => m = none ∧ own = ∅)
    (Proc.minds_ofExcept (fun _ _ => ⟨rfl, rfl⟩) fun e he => ⟨⟨fun _ => ⟨request, he⟩, nofun⟩, nofun⟩) ?_
  rintro extracted _ _ h ⟨rfl, rfl⟩
  -- the id is drawn, and everything about it is known
  refine Proc.Minds.seq (T := fun upload_id _ own h => Unwritten ⟨request.owner_id, upload_id⟩ (some upload_id) own h)
    (Proc.minds_ask fun h' _ hI upload_id hd => ⟨{upload_id}, conducts_uuid4 hI hd, ?_⟩) ?_
  · have hclear := hI.2 upload_id hd
    exact ⟨⟨⟨rfl, _, List.mem_cons_self, rfl⟩, rfl, fun owner_id _ => hclear.1 owner_id, hclear.2⟩, hclear.1 _⟩
  intro upload_id m own h hP
  refine Proc.Minds.seq (T := fun _ => Unwritten ⟨request.owner_id, upload_id⟩) (Proc.minds_modify hP) ?_
  intro _ m₁ own₁ h₁ hP₁
  refine Proc.Minds.seq (minds_question (P := Unwritten ⟨request.owner_id, upload_id⟩) Unwritten.steady (fun hp => hp.toHolds.owned.2) .now hP₁) ?_
  intro now m₂ own₂ h₂ hP₂
  refine Proc.minds_ite (fun _ => Proc.minds_throw (hP₂.failed _)) fun _ => ?_
  refine Proc.Minds.seq (minds_attempt (minds_question (P := Unwritten ⟨request.owner_id, upload_id⟩) Unwritten.steady (fun hp => hp.toHolds.owned.2) _ hP₂)
    fun hp => hp.failed _) ?_
  intro _ m₃ own₃ h₃ hP₃
  refine Proc.Minds.seq (Proc.Minds.handle ?_ fun e m own h hP => clean_up_minds hP) fun _ _ _ _ _ => Proc.minds_pure trivial
  exact Proc.Minds.seq (write_file_minds hP₃.toHolds) fun _ _ _ _ hP₄ => record_minds rfl hP₄

end Procedures

/-! ### Every interleaving of saves -/

/-- What is known of a finished save. -/
def Finished (service : UploadService) (r : Except SaveError UploadRecord × Option Uuid) (own : Set Uuid)
    (h : History) : Prop :=
  Proc.ending (fun _ _ _ _ => True) (Failed service) r own h

/-- **Upload quotas.** In every interleaving of saves, whichever steps fail, each quota counts
exactly the uploads of its owner's hunt, within the limits, and a save that failed has left no row
and no file. -/
theorem upload_quota_exact (service : UploadService) {h : History} {ps : List Call}
    (run : Pool.Run service.Saves .empty h ps) (fresh : Admitted Fresh h.past) :
    QuotaExact service.limits h.now ∧ ∀ e m, Program.pure (.error e, m) ∈ ps → Left service e m h.now := by
  have hsteady : ∀ r own h h', (estate service.limits).Undisturbed own h h' →
      Finished service r own h → Finished service r own h' := by
    rintro ⟨r, m⟩ own h h' hu hr
    cases r with
    | ok a => trivial
    | error e => exact Failed.steady hu hr
  have hsaves : ∀ p, service.Saves p → ∀ h, (estate service.limits).inv h →
      p.Minds (estate service.limits) ∅ (Finished service) h := by
    rintro p ⟨request, rfl⟩ h -
    exact (save_minds request).program
  have hempty : (estate service.limits).inv ⟨.empty, []⟩ :=
    ⟨quotaExact_empty _, fun _ _ => ⟨fun _ => rfl, nofun⟩⟩
  obtain ⟨hI, owns, ho⟩ := Pool.Run.owned hsteady hsaves hempty run fresh
  refine ⟨hI.1, fun e m hp => ?_⟩
  obtain ⟨fronts, backs, rfl⟩ := List.append_of_mem hp
  obtain ⟨-, own, -, -, -, hminds, -⟩ := Pool.forall₂_split ho.minds
  exact hminds.of_pure.1

/-! A hunt with room for one file: two saves write theirs, one takes the quota, and the other is
refused and removes its file. -/

/-- A service that takes any text, with room for one file. -/
def smallService : UploadService where
  utf8 content := some (content.map fun b => Char.ofNat b.toNat)
  utf8_ignore content := content.map fun b => Char.ofNat b.toNat
  zip_file _ := none
  json_loads _ := true
  safe_load _ := true
  limits := { file_count := 1 }
  under_root _ := true
  sha256 _ := "digest"

def noteRequest : SaveRequest := ⟨"owner", "hunt", "note.txt".toList, [104, 105], none⟩

/-- Ids are drawn as named, and nothing fails. -/
def draws (upload_id : Uuid) : ∀ q : Ask, q.Answer
  | .uuid4 => upload_id
  | .now => (0 : Int)
  | .mkdir_fails | .open_fails | .write_fails | .transaction_fails => false

/-- Both calls write their files before either is recorded. -/
def contestedQuota : List (Pool.Turn uploadSignature (Except SaveError UploadRecord × Option Uuid)) :=
  [.start (smallService.save noteRequest none), .start (smallService.save noteRequest none)] ++
  List.replicate 8 (.step 0 (draws "a")) ++ List.replicate 8 (.step 1 (draws "b")) ++
  List.replicate 4 (.step 0 (draws "a")) ++ List.replicate 4 (.step 1 (draws "b"))

/-- The calls of the schedule are saves. -/
theorem contestedQuota_saves : ∀ t ∈ contestedQuota, ∀ p ∈ t.program, smallService.Saves p := by
  intro t ht p hp
  simp only [contestedQuota, List.mem_append, List.mem_cons, List.mem_replicate, List.not_mem_nil, or_false] at ht
  rcases ht with (((ht | ht) | ht) | ht) | ht
  · rcases ht with rfl | rfl <;> exact ⟨noteRequest, (Option.some.inj hp).symm⟩
  all_goals
    obtain ⟨-, rfl⟩ := ht
    cases hp

/-- The quota is exact, and the refused save has left nothing. -/
theorem contested_quota_exact :
    QuotaExact smallService.limits (Pool.exec contestedQuota .empty).1.now ∧
      ∀ e m, Program.pure (.error e, m) ∈ (Pool.exec contestedQuota .empty).2 →
        Left smallService e m (Pool.exec contestedQuota .empty).1.now :=
  upload_quota_exact smallService (Pool.exec_run contestedQuota contestedQuota_saves) (by decide +kernel)

end Uploads

end ThreatHunting
