import ThreatHunting.Lib.JsonText
import ThreatHunting.Lib.Publication
import ThreatHunting.Text

/-!
# ThreatHunting.Services.TemporaryResults

`services/temporary_results.py`: rows of query results in files below a root, one file for the owner,
the hunt and the query. A writer streams rows into a temporary file, which `commit` renames to the file
of the result.

`_safe_segment` is not injective, and leaves `.` and `..` as they are: different owners, hunts and
queries may have one file. No name is taken for a symbolic link. Operations of the file system may fail
at any time, and the process may end at any time.
-/

namespace ThreatHunting

open Fallible

namespace TemporaryResults

open Json (dumpsAscii loads)
open Publication (Act Board)

/-- The members of a row. -/
abbrev Members := List (String × Json)

/-- The exceptions of the store; a `ValueError` or `RecursionError` of `json` is let through. -/
inductive Raised
  | temporary_result_error (message : String)
  | uncaught (e : Json.LoadError)
  deriving DecidableEq, Repr

def failure {α : Type} (message : String) : Except Raised α := .error (.temporary_result_error message)

/-! ### Places -/

/-- The names on the way to a file, from the root of the file system on. -/
abbrev Path := List Text

/-- `[A-Za-z0-9._-]`. -/
def isSafe (c : Char) : Bool := c.isAlphanum || c ∈ ['.', '_', '-']

/-- `_SAFE_SEGMENT.sub("_", …)`: a run of other characters becomes one underscore. -/
def substitute (inRun : Bool) : Text → Text
  | [] => []
  | c :: cs =>
      if isSafe c then c :: substitute false cs
      else if inRun then substitute true cs
      else '_' :: substitute true cs

/-- `_safe_segment`. -/
def safe_segment (value : Text) : Except Raised Text :=
  let cleaned := substitute false (strip value)
  if cleaned.isEmpty then failure "storage segment must not be empty" else .ok cleaned

/-- What a result is kept for. -/
structure Identity where
  owner_user_id : Text
  hunt_id : Text
  query_id : Text
  deriving DecidableEq

/-- `relative_path`, as its names: none of them has a slash. -/
def relative_path (i : Identity) : Except Raised Path := do
  let owner ← safe_segment i.owner_user_id
  let hunt ← safe_segment i.hunt_id
  let query ← safe_segment i.query_id
  return [owner, hunt, "queries".toList, query ++ ".jsonl".toList]

/-- `(root / relative).resolve()`. -/
def resolve (path : Path) : Path → Path
  | [] => path
  | name :: rest =>
      if name = ['.'] then resolve path rest
      else if name = ['.', '.'] then resolve path.dropLast rest
      else resolve (path ++ [name]) rest

/-- `_path`. -/
def store_path (root relative : Path) : Except Raised Path :=
  let path := resolve root relative
  if root.isPrefixOf path then .ok path else failure "result path escapes storage root"

/-- The file of a result, if there can be one: the root itself is a directory. -/
def place (root : Path) (i : Identity) : Option Path :=
  match relative_path i >>= store_path root with
  | .ok path => if path = root then none else some path
  | .error _ => none

/-! ### Rows -/

variable (float_of : List Char → Json)

/-- `_row_size`. Where `json.dumps` raises `ValueError`, so does `str` of the row. -/
def row_size (row : Members) : Except Raised Nat :=
  match dumpsAscii (.object row) with
  | some text => .ok text.length
  | none => .error (.uncaught .value_error)

/-- The lines of a text, whatever ends them. -/
def lines : Text → List Text
  | [] => []
  | '\r' :: '\n' :: cs => [] :: lines cs
  | c :: cs =>
      if c = '\n' ∨ c = '\r' then [] :: lines cs
      else
        match lines cs with
        | [] => [[c]]
        | line :: rest => (c :: line) :: rest

/-- The loop of `load_rows`; what is read so far, and its size. -/
def loadLoop (max_rows max_bytes : Option Nat) :
    Nat → List Text → List Members × Nat → Except Raised (List Members × Nat)
  | _, [], found => .ok found
  | line_number, line :: rest, (rows, byte_count) =>
      let text := strip line
      if text.isEmpty then loadLoop max_rows max_bytes (line_number + 1) rest (rows, byte_count)
      else
        match loads float_of text with
        | .error .decode_error => failure s!"temporary result batch is corrupt at line {line_number}"
        | .error e => .error (.uncaught e)
        | .ok (.object row) => do
            let size ← row_size row
            if max_rows.any (· < rows.length + 1) then failure "temporary result batch exceeds row limit"
            if max_bytes.any (· < byte_count + size) then failure "temporary result batch exceeds byte limit"
            loadLoop max_rows max_bytes (line_number + 1) rest (rows ++ [row], byte_count + size)
        | .ok _ => failure s!"temporary result batch row {line_number} is not an object"

/-- `TemporaryResultBatch`. -/
structure TemporaryResultBatch where
  location : Path
  rows : List Members
  row_count : Nat
  byte_count : Nat

/-- `load_rows`, of these files. -/
def load_rows (files : Path → Option Text) (root relative : Path) (max_rows max_bytes : Option Nat) :
    Except Raised TemporaryResultBatch := do
  let path ← store_path root relative
  match files path with
  | none => failure "temporary result batch is missing"
  | some content =>
      let (rows, byte_count) ← loadLoop float_of max_rows max_bytes 1 (lines content) ([], 0)
      return { location := relative, rows, row_count := rows.length, byte_count }

/-! ### Writers -/

/-- How far a writer is: `commit` has closed its stream, or renamed its file. -/
inductive Stage
  | streaming | closed | committed | aborted
  deriving DecidableEq, Repr

/-- `TemporaryResultWriter`, and the text given to its stream. -/
structure Writer where
  relative : Path
  temporary : Path
  written : Text := []
  row_count : Nat := 0
  byte_count : Nat := 0
  stage : Stage := .streaming

/-- `append`, where the stream takes the text. -/
def Writer.append (writer : Writer) (row : Members) : Except Raised Writer :=
  if writer.stage ≠ .streaming then failure "result writer is closed"
  else do
    let size ← row_size row
    match dumpsAscii (.object row) with
    | none => .error (.uncaught .value_error)
    | some text =>
        return { writer with
          written := writer.written ++ text ++ ['\n'], row_count := writer.row_count + 1
          byte_count := writer.byte_count + size }

/-- The files, and the writers of the process. -/
structure State where
  files : Path → Option Text
  writers : Nat → Option Writer

/-- No file below the root, and no writer. -/
def State.empty : State := ⟨fun _ => none, fun _ => none⟩

def State.putFile (s : State) (path : Path) (content : Option Text) : State :=
  { s with files := Function.update s.files path content }

def State.putWriter (s : State) (w : Nat) (writer : Writer) : State :=
  { s with writers := Function.update s.writers w (some writer) }

/-- A temporary file next to a file, with some characters of its own. -/
def temporaryOf (target : Path) (random : Text) : Path :=
  target.dropLast ++ [".query-result-".toList ++ random ++ ".tmp".toList]

/-- A row that has a JSON text. -/
structure Row (float_of : List Char → Json) where
  members : Members
  wellFormed : Json.WellFormed float_of (.object members)

/-- What happens, one operation of the file system at a time. -/
inductive Event (float_of : List Char → Json)
  /-- A writer is opened, and `mkstemp` gives it a file. -/
  | opened (w : Nat) (i : Identity) (random : Text)
  | appended (w : Nat) (row : Row float_of)
  /-- So much of what was written is in the file. -/
  | flushed (w n : Nat)
  /-- `commit` has flushed and closed the stream. -/
  | synced (w : Nat)
  /-- `commit` has renamed the file. -/
  | replaced (w : Nat)
  /-- `abort`, also where an operation has failed. -/
  | aborted (w : Nat) (unlinked : Bool)
  | deleted (i : Identity)
  /-- The process ends, and another one starts. -/
  | crashed

/-- The writer, if it is at this stage. -/
def State.writerAt (s : State) (w : Nat) (stage : Stage) : Option Writer :=
  (s.writers w).filter (·.stage = stage)

variable (root : Path)

/-- What an event makes of a state; `none` where it cannot happen. -/
def step (s : State) : Event float_of → Option State
  | .opened w i random =>
      match relative_path i with
      | .error _ => none
      | .ok relative =>
          match store_path root relative with
          | .error _ => none
          | .ok target =>
              let temporary := temporaryOf target random
              -- `mkstemp` takes a name that does not exist
              if (s.writers w).isSome ∨ (s.files temporary).isSome ∨ temporary = root then none
              else some ((s.putFile temporary (some [])).putWriter w { relative, temporary })
  | .appended w row => do
      let writer ← s.writers w
      let writer ← (writer.append row.members).toOption
      return s.putWriter w writer
  | .flushed w n => do
      let writer ← s.writerAt w .streaming
      return s.putFile writer.temporary (some (writer.written.take n))
  | .synced w => do
      let writer ← s.writerAt w .streaming
      return (s.putFile writer.temporary (some writer.written)).putWriter w { writer with stage := .closed }
  | .replaced w => do
      let writer ← s.writerAt w .closed
      let target ← (store_path root writer.relative).toOption
      let content ← s.files writer.temporary
      if target = root then none
      else
        return ((s.putFile writer.temporary none).putFile target (some content)).putWriter w
          { writer with stage := .committed }
  | .aborted w unlinked => do
      let writer ← s.writers w
      -- the name of an aborted writer's file is not given again
      if writer.stage = .committed ∨ writer.stage = .aborted then return s
      let files := if unlinked then s.putFile writer.temporary none else s
      return files.putWriter w { writer with stage := .aborted }
  | .deleted i => do
      let path ← place root i
      return s.putFile path none
  | .crashed => some { s with writers := fun _ => none }

/-- The state after these events. -/
def run (events : List (Event float_of)) : Option State := events.foldlM (step float_of root) .empty

/-- `load_rows` of a result, without limits. -/
def load (s : State) (i : Identity) : Except Raised TemporaryResultBatch := do
  load_rows float_of s.files root (← relative_path i) none none

/-! ### Rows are read back -/

variable {float_of root}

namespace Row

/-- The row with its members, and those of the objects in it, in the order of their keys. -/
def sorted (row : Row float_of) : Members := (Json.sortedMembers row.members).insertionSort fun a b => a.1 ≤ b.1

theorem wellFormed_sorted (row : Row float_of) : Json.WellFormed float_of (.object row.sorted) :=
  Json.wellFormed_sorted (.object row.members) row.wellFormed

/-- The text of the row. -/
def text (row : Row float_of) : Text := (Json.object row.sorted).write

theorem dumpsAscii_members (row : Row float_of) : dumpsAscii (.object row.members) = some row.text := by
  rw [dumpsAscii, if_pos (Json.short_of_wellFormed _ row.wellFormed)]
  rfl

theorem loads_text (row : Row float_of) : loads float_of row.text = .ok (.object row.sorted) :=
  Json.loads_write row.wellFormed_sorted

theorem row_size_sorted (row : Row float_of) : ∃ size, row_size row.sorted = .ok size := by
  rw [row_size, dumpsAscii, if_pos (Json.short_of_wellFormed _ row.wellFormed_sorted)]
  exact ⟨_, rfl⟩

theorem text_no_newline (row : Row float_of) : ∀ c ∈ row.text, c ≠ '\n' ∧ c ≠ '\r' := by
  intro c hc
  have hprintable := Json.printable_write _ row.wellFormed_sorted c hc
  constructor <;> rintro rfl <;> exact absurd hprintable.1 (by decide)

theorem strip_text (row : Row float_of) : strip row.text = row.text := by
  obtain ⟨inner, hinner⟩ := Json.write_object row.sorted
  refine strip_of_trimmed ⟨fun c hc => ?_, fun c hc => ?_⟩
  · rw [text, hinner] at hc
    cases hc
    rfl
  · rw [text, hinner, ← List.cons_append, List.getLast?_append] at hc
    cases hc
    rfl

theorem text_ne_nil (row : Row float_of) : row.text ≠ [] := by
  obtain ⟨inner, hinner⟩ := Json.write_object row.sorted
  rw [text, hinner]
  exact List.cons_ne_nil _ _

end Row

/-- The text of a file of rows. -/
def encode (rows : List (Row float_of)) : Text := rows.flatMap fun row => row.text ++ ['\n']

theorem lines_append {line : Text} (hline : ∀ c ∈ line, c ≠ '\n' ∧ c ≠ '\r') (rest : Text) :
    lines (line ++ '\n' :: rest) = line :: lines rest := by
  induction line with
  | nil =>
      rw [List.nil_append, lines]
      · rfl
      · exact fun _ heq => absurd heq (by decide)
  | cons c line ih =>
      obtain ⟨⟨hn, hr⟩, hline⟩ := List.forall_mem_cons.mp hline
      rw [List.cons_append, lines, if_neg (not_or.mpr ⟨hn, hr⟩), ih hline]
      exact fun _ heq => absurd heq hr

theorem loadLoop_encode (rows : List (Row float_of)) (line_number : Nat) (found : List Members × Nat) :
    ∃ byte_count, loadLoop float_of none none line_number (lines (encode rows)) found =
      .ok (found.1 ++ rows.map Row.sorted, byte_count) := by
  induction rows generalizing line_number found with
  | nil => exact ⟨found.2, by rw [List.map_nil, List.append_nil]; rfl⟩
  | cons row rows ih =>
      obtain ⟨size, hsize⟩ := row.row_size_sorted
      obtain ⟨byte_count, hrest⟩ := ih (line_number + 1) (found.1 ++ [row.sorted], found.2 + size)
      refine ⟨byte_count, ?_⟩
      have hlines : lines (encode (row :: rows)) = row.text :: lines (encode rows) := by
        rw [encode, List.flatMap_cons, List.append_assoc, List.singleton_append]
        exact lines_append row.text_no_newline _
      have hempty : row.text.isEmpty = false := List.isEmpty_eq_false_iff.mpr row.text_ne_nil
      rw [hlines, loadLoop]
      simp only [row.strip_text, hempty, row.loads_text, hsize, ok_bind, Option.any_none, Bool.false_eq_true, if_false]
      rw [hrest, List.map_cons, List.append_assoc, List.singleton_append]

/-- A file of rows is read back. -/
theorem load_rows_encode {files : Path → Option Text} {relative path : Path} {rows : List (Row float_of)}
    (hpath : store_path root relative = .ok path) (hfile : files path = some (encode rows)) :
    ∃ batch, load_rows float_of files root relative none none = .ok batch ∧ batch.rows = rows.map Row.sorted := by
  obtain ⟨byte_count, hloop⟩ := loadLoop_encode rows 1 ([], 0)
  refine ⟨⟨relative, rows.map Row.sorted, (rows.map Row.sorted).length, byte_count⟩, ?_, rfl⟩
  rw [load_rows, hpath, ok_bind, hfile]
  simp only [hloop, ok_bind, List.nil_append]
  rfl

end TemporaryResults

end ThreatHunting
