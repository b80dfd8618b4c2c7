import ThreatHunting.Services.TemporaryResults

/-!
# ThreatHunting.Services.TemporaryRuns

Runs of the temporary results: whatever writers do, fail to do or leave undone, the files of results are
those that were published, each at the place of its owner, hunt and query.
-/

namespace ThreatHunting

open Fallible

namespace TemporaryResults

open Publication (Act Board)

variable {float_of : List Char → Json} {root relative target path : Path} {i j : Identity} {s s' : State}

/-! ### Files of results, and temporary files -/

theorem resolve_append_of_name {name : Text} (hname : name ≠ ['.'] ∧ name ≠ ['.', '.']) (path names : Path) :
    ∃ parent, resolve path (names ++ [name]) = parent ++ [name] := by
  induction names generalizing path with
  | nil => exact ⟨path, by rw [List.nil_append, resolve, if_neg hname.1, if_neg hname.2, resolve]⟩
  | cons first names ih =>
      rw [List.cons_append, resolve]
      split
      · exact ih path
      · split
        · exact ih path.dropLast
        · exact ih (path ++ [first])

/-- A path of a temporary file. -/
def IsTemporary (path : Path) : Prop := ∃ target random, path = temporaryOf target random

theorem relative_path_eq_ok (h : relative_path i = .ok relative) :
    ∃ owner hunt query, relative = [owner, hunt, "queries".toList] ++ [query ++ ".jsonl".toList] := by
  obtain ⟨owner, -, h⟩ := bind_eq_ok.mp h
  obtain ⟨hunt, -, h⟩ := bind_eq_ok.mp h
  obtain ⟨query, -, h⟩ := bind_eq_ok.mp h
  cases h
  exact ⟨owner, hunt, query, rfl⟩

theorem store_path_eq_ok (h : store_path root relative = .ok path) :
    resolve root relative = path ∧ root <+: path := by
  rw [store_path] at h
  split at h
  next hprefix =>
    cases h
    exact ⟨rfl, List.isPrefixOf_iff_prefix.mp hprefix⟩
  next => cases h

/-- The file of a result is no temporary file. -/
theorem not_isTemporary (hrelative : relative_path i = .ok relative) (hpath : store_path root relative = .ok path) :
    ¬IsTemporary path := by
  rintro ⟨target, random, htemporary⟩
  obtain ⟨owner, hunt, query, rfl⟩ := relative_path_eq_ok hrelative
  have hname : query ++ ".jsonl".toList ≠ ['.'] ∧ query ++ ".jsonl".toList ≠ ['.', '.'] := by
    constructor <;> intro heq <;> have hlength := congrArg List.length heq <;> simp at hlength
  obtain ⟨parent, hparent⟩ := resolve_append_of_name hname root [owner, hunt, "queries".toList]
  rw [(store_path_eq_ok hpath).1, htemporary] at hparent
  have hlast := congrArg List.getLast? hparent
  rw [temporaryOf, List.getLast?_concat, List.getLast?_concat, Option.some.injEq] at hlast
  -- the one name ends in `p`, the other in `l`
  have hend := congrArg List.getLast? hlast
  rw [List.getLast?_append_of_ne_nil _ (by decide), List.getLast?_append_of_ne_nil _ (by decide)] at hend
  exact absurd hend (by decide)

theorem place_eq_some (h : place root i = some path) :
    ∃ relative, relative_path i = .ok relative ∧ store_path root relative = .ok path ∧ path ≠ root := by
  rw [place] at h
  split at h
  next path' hpath =>
    obtain ⟨relative, hrelative, hpath⟩ := bind_eq_ok.mp hpath
    split at h
    · cases h
    next hroot =>
      cases h
      exact ⟨relative, hrelative, hpath, hroot⟩
  next => cases h

theorem place_of_eq_ok (hrelative : relative_path i = .ok relative) (hpath : store_path root relative = .ok path) :
    place root i = if path = root then none else some path := by
  rw [place, hrelative, ok_bind, hpath]

/-! ### What is published -/

/-- What an event is to the owners, hunts and queries. Nothing is published that has no place. -/
def act (root : Path) : Event float_of → Option (Act Identity (Row float_of))
  | .opened w i _ => (place root i).map fun _ => .start w i
  | .appended w row => some (.add w row)
  | .replaced w => some (.publish w)
  | .aborted w _ => some (.drop w)
  | .deleted i => (place root i).map fun _ => .delete i
  | .crashed => some .lose
  | .flushed _ _ | .synced _ => none

/-- The rows published for each owner, hunt and query, whatever the others do. -/
def published (root : Path) (events : List (Event float_of)) : Identity → Option (List (Row float_of)) :=
  (Board.run (events.filterMap (act root))).results

/-- The same act, at the file of the owner, hunt and query. -/
def actAt (root : Path) (e : Event float_of) : Option (Act Path (Row float_of)) :=
  (act root e).map (Act.map fun i => (place root i).getD [])

/-! ### What a state has of the drafts -/

/-- `commit` and `abort` have not finished. -/
def Writer.active (writer : Writer) : Bool := writer.stage = .streaming ∨ writer.stage = .closed

/-- The writer has written its draft, and has a file for it. -/
structure Keeps (root : Path) (files : Path → Option Text) (writer : Writer) (draft : Option (Path × List (Row float_of))) :
    Prop where
  drafted : ∃ i target rows, relative_path i = .ok writer.relative ∧ store_path root writer.relative = .ok target ∧
    writer.written = encode rows ∧ draft = if target = root then none else some (target, rows)
  temporary : IsTemporary writer.temporary
  ne_root : writer.temporary ≠ root
  kept : ∃ content, files writer.temporary = some content ∧ (writer.stage = .closed → content = writer.written)

/-- A writer that has finished has no draft. -/
def Holds (root : Path) (files : Path → Option Text) (writer : Option Writer) (draft : Option (Path × List (Row float_of))) :
    Prop :=
  match writer with
  | none => draft = none
  | some writer => if writer.active then Keeps root files writer draft else draft = none

/-- The files of results are what is published at their paths, and the writers have the drafts. -/
structure Simulates (root : Path) (s : State) (c : Board Path (Row float_of)) : Prop where
  files : ∀ path, ¬IsTemporary path → s.files path = (c.results path).map encode
  root_file : s.files root = none
  writers : ∀ w, Holds root s.files (s.writers w) (c.drafts w)
  apart : ∀ w w' writer writer', w ≠ w' → s.writers w = some writer → s.writers w' = some writer' →
    writer.active = true → writer'.active = true → writer.temporary ≠ writer'.temporary

variable {files files' : Path → Option Text} {writer : Writer} {draft : Option (Path × List (Row float_of))}
  {c : Board Path (Row float_of)} {w : Nat}

theorem holds_active (hactive : writer.active = true) : Holds root files (some writer) draft ↔ Keeps root files writer draft := by
  rw [Holds, if_pos hactive]

theorem holds_inactive (hinactive : writer.active = false) : Holds root files (some writer) draft ↔ draft = none := by
  rw [Holds, hinactive, if_neg Bool.false_ne_true]

theorem Holds.of_files {writer : Option Writer} (h : Holds root files writer draft)
    (hfiles : ∀ writer' ∈ writer, writer'.active = true → files' writer'.temporary = files writer'.temporary) :
    Holds root files' writer draft := by
  cases writer with
  | none => exact h
  | some writer =>
      by_cases hactive : writer.active = true
      · rw [holds_active hactive] at h ⊢
        obtain ⟨content, hcontent, hclosed⟩ := h.kept
        exact ⟨h.drafted, h.temporary, h.ne_root, content, (hfiles writer rfl hactive).trans hcontent, hclosed⟩
      · rw [Bool.not_eq_true] at hactive
        rw [holds_inactive hactive] at h ⊢
        exact h

theorem simulates_empty (root : Path) : Simulates root .empty (.empty : Board Path (Row float_of)) :=
  ⟨fun _ _ => rfl, rfl, fun _ => rfl, fun _ _ _ _ _ h => by cases h⟩

theorem Simulates.keeps (h : Simulates root s c) (hwriter : s.writers w = some writer) (hactive : writer.active = true) :
    Keeps root s.files writer (c.drafts w) := by
  have hholds := h.writers w
  rw [hwriter, holds_active hactive] at hholds
  exact hholds

/-- One writer and its file change. -/
theorem Simulates.update (h : Simulates root s c) {content : Option Text} {path : Path} {writer' : Writer}
    {draft' : Option (Path × List (Row float_of))} (htemporary : IsTemporary path) (hroot : path ≠ root)
    (hothers : ∀ w' other, w' ≠ w → s.writers w' = some other → other.active = true → other.temporary ≠ path)
    (hholds : Holds root (s.putFile path content).files (some writer') draft')
    (hname : writer'.active = true → writer'.temporary = path) :
    Simulates root ((s.putFile path content).putWriter w writer')
      { c with drafts := Function.update c.drafts w draft' } := by
  refine ⟨fun p hp => ?_, ?_, fun w' => ?_, fun w₁ w₂ writer₁ writer₂ hne h₁ h₂ hactive₁ hactive₂ => ?_⟩
  · have hne : p ≠ path := fun heq => hp (heq ▸ htemporary)
    simpa [State.putFile, State.putWriter, hne] using h.files p hp
  · simpa [State.putFile, State.putWriter, hroot.symm] using h.root_file
  · by_cases hw : w' = w
    · subst hw
      simpa [State.putWriter] using hholds
    · have hother : Holds root (s.putFile path content).files (s.writers w') (c.drafts w') :=
        (h.writers w').of_files fun other hsome hactive => by
          simp [State.putFile, hothers w' other hw hsome hactive]
      simpa [State.putWriter, State.putFile, hw] using hother
  · simp only [State.putWriter, State.putFile] at h₁ h₂
    by_cases hw₁ : w₁ = w
    · have hw₂ : w₂ ≠ w := fun hw₂ => hne (hw₁.trans hw₂.symm)
      rw [hw₁, Function.update_self, Option.some.injEq] at h₁
      rw [Function.update_of_ne hw₂] at h₂
      subst h₁
      rw [hname hactive₁]
      exact (hothers w₂ writer₂ hw₂ h₂ hactive₂).symm
    · rw [Function.update_of_ne hw₁] at h₁
      by_cases hw₂ : w₂ = w
      · rw [hw₂, Function.update_self, Option.some.injEq] at h₂
        subst h₂
        rw [hname hactive₂]
        exact hothers w₁ writer₁ hw₁ h₁ hactive₁
      · rw [Function.update_of_ne hw₂] at h₂
        exact h.apart w₁ w₂ writer₁ writer₂ hne h₁ h₂ hactive₁ hactive₂

/-- A file of a result changes, and what is published there. -/
theorem Simulates.putResult (h : Simulates root s c) (hpath : ¬IsTemporary path) (hroot : path ≠ root)
    (rows : Option (List (Row float_of))) :
    Simulates root (s.putFile path (rows.map encode)) { c with results := Function.update c.results path rows } := by
  refine ⟨fun p hp => ?_, ?_, fun w => ?_, h.apart⟩
  · by_cases heq : p = path
    · subst heq
      simp [State.putFile]
    · simpa [State.putFile, heq] using h.files p hp
  · simpa [State.putFile, hroot.symm] using h.root_file
  · refine (h.writers w).of_files fun writer hwriter hactive => ?_
    have hne : writer.temporary ≠ path := fun heq => hpath (heq ▸ (h.keeps hwriter hactive).temporary)
    simp [State.putFile, hne]

/-! ### Each event -/

/-- What is written is one more row. -/
theorem append_eq_ok {row : Row float_of} {writer' : Writer} (h : writer.append row.members = .ok writer') :
    writer.stage = .streaming ∧ ∃ row_count byte_count, writer' =
      { writer with written := writer.written ++ (row.text ++ ['\n']), row_count, byte_count } := by
  rw [Writer.append] at h
  split at h
  · cases h
  next hstage =>
    obtain ⟨size, -, h⟩ := bind_eq_ok.mp h
    rw [row.dumpsAscii_members] at h
    cases h
    exact ⟨not_not.mp hstage, _, _, by rw [List.append_assoc]⟩

theorem encode_append (rows : List (Row float_of)) (row : Row float_of) :
    encode (rows ++ [row]) = encode rows ++ (row.text ++ ['\n']) := by
  rw [encode, encode, List.flatMap_append, List.flatMap_singleton]

/-- The board after an event. -/
def Board.after (root : Path) (c : Board Path (Row float_of)) (e : Event float_of) : Board Path (Row float_of) :=
  match actAt root e with
  | none => c
  | some a => c.step a

theorem Simulates.others (h : Simulates root s c) (hwriter : s.writers w = some writer) (hactive : writer.active = true) :
    ∀ w' other, w' ≠ w → s.writers w' = some other → other.active = true → other.temporary ≠ writer.temporary :=
  fun w' other hne hother hactive' => h.apart w' w other writer hne hother hwriter hactive' hactive

/-- A writer changes, and its file may. -/
theorem Simulates.update_active (h : Simulates root s c) (hwriter : s.writers w = some writer) (hactive : writer.active = true)
    {content : Option Text} {writer' : Writer} {draft' : Option (Path × List (Row float_of))}
    (hholds : Holds root (s.putFile writer.temporary content).files (some writer') draft')
    (hname : writer'.temporary = writer.temporary) :
    Simulates root ((s.putFile writer.temporary content).putWriter w writer')
      { c with drafts := Function.update c.drafts w draft' } := by
  have hkeeps := h.keeps hwriter hactive
  exact h.update hkeeps.temporary hkeeps.ne_root (h.others hwriter hactive) hholds fun _ => hname

theorem putFile_self (s : State) (path : Path) : s.putFile path (s.files path) = s := by
  rw [State.putFile, Function.update_eq_self]

theorem putWriter_self (h : s.writers w = some writer) : s.putWriter w writer = s := by
  rw [State.putWriter, ← h, Function.update_eq_self]

theorem writerAt_eq_some {stage : Stage} (h : s.writerAt w stage = some writer) :
    s.writers w = some writer ∧ writer.stage = stage := by
  obtain ⟨hwriter, hstage⟩ := Option.filter_eq_some_iff.mp h
  exact ⟨hwriter, of_decide_eq_true hstage⟩

theorem update_same {α : Type} (f : Nat → Option α) {w : Nat} {d : Option α} (h : f w = d) : Function.update f w d = f := by
  rw [← h, Function.update_eq_self]

theorem Simulates.opened (h : Simulates root s c) {random : Text} (hstep : step float_of root s (.opened w i random) = some s') :
    Simulates root s' (Board.after root c (.opened w i random)) := by
  rw [step] at hstep
  split at hstep
  · cases hstep
  next relative hrelative =>
    split at hstep
    · cases hstep
    next target htarget =>
      simp only at hstep
      split at hstep
      · cases hstep
      next hfresh =>
        cases hstep
        simp only [not_or, Bool.not_eq_true, Option.isSome_eq_false_iff, Option.isNone_iff_eq_none] at hfresh
        obtain ⟨hwriter, hfile, hroot⟩ := hfresh
        have hdraft : c.drafts w = none := by
          have hholds := h.writers w
          rwa [hwriter] at hholds
        have hafter : Board.after root c (.opened w i random) =
            { c with drafts := Function.update c.drafts w (if target = root then none else some (target, [])) } := by
          rw [Board.after, actAt, act, place_of_eq_ok hrelative htarget]
          by_cases htop : target = root
          · rw [if_pos htop, if_pos htop, update_same c.drafts hdraft]
            rfl
          · rw [if_neg htop, if_neg htop, Option.map_some, Option.map_some, Act.map,
              place_of_eq_ok hrelative htarget, if_neg htop]
            rfl
        rw [hafter]
        refine h.update ⟨target, random, rfl⟩ hroot (fun w' other _ hother hactive heq => ?_) ?_ fun _ => rfl
        · obtain ⟨content, hcontent, -⟩ := (h.keeps hother hactive).kept
          rw [heq, hfile] at hcontent
          cases hcontent
        · rw [holds_active rfl]
          exact ⟨⟨i, target, [], hrelative, htarget, rfl, rfl⟩, ⟨target, random, rfl⟩, hroot, [],
            by simp [State.putFile], fun hclosed => by cases hclosed⟩

theorem Simulates.appended (h : Simulates root s c) {row : Row float_of}
    (hstep : step float_of root s (.appended w row) = some s') : Simulates root s' (Board.after root c (.appended w row)) := by
  obtain ⟨writer, hwriter, hstep⟩ := Option.bind_eq_some_iff.mp hstep
  obtain ⟨writer', happend, hstep⟩ := Option.bind_eq_some_iff.mp hstep
  cases hstep
  obtain ⟨hstage, row_count, byte_count, rfl⟩ := append_eq_ok (toOption_eq_some.mp happend)
  have hactive : writer.active = true := by simp [Writer.active, hstage]
  have hkeeps := h.keeps hwriter hactive
  have hholds : Holds root (s.putFile writer.temporary (s.files writer.temporary)).files
      (some { writer with written := writer.written ++ (row.text ++ ['\n']), row_count, byte_count })
      ((c.drafts w).map fun d => (d.1, d.2 ++ [row])) := by
    obtain ⟨i, target, rows, hrelative, htarget, hwritten, hdraft⟩ := hkeeps.drafted
    obtain ⟨content, hcontent, -⟩ := hkeeps.kept
    rw [putFile_self, holds_active (by simp [Writer.active, hstage])]
    refine ⟨⟨i, target, rows ++ [row], hrelative, htarget, ?_, ?_⟩, hkeeps.temporary, hkeeps.ne_root, content, hcontent, ?_⟩
    · rw [encode_append, hwritten]
    · rw [hdraft]
      split <;> rfl
    · exact fun hclosed => absurd (hstage.symm.trans hclosed) (by decide)
  have hupdate := h.update_active hwriter hactive hholds rfl
  rwa [putFile_self] at hupdate

theorem Simulates.flushed (h : Simulates root s c) {n : Nat} (hstep : step float_of root s (.flushed w n) = some s') :
    Simulates root s' (Board.after root c (.flushed w n : Event float_of)) := by
  obtain ⟨writer, hat, hstep⟩ := Option.bind_eq_some_iff.mp hstep
  cases hstep
  obtain ⟨hwriter, hstage⟩ := writerAt_eq_some hat
  have hactive : writer.active = true := by simp [Writer.active, hstage]
  have hkeeps := h.keeps hwriter hactive
  have hholds : Holds root (s.putFile writer.temporary (some (writer.written.take n))).files (some writer) (c.drafts w) := by
    rw [holds_active hactive]
    exact ⟨hkeeps.drafted, hkeeps.temporary, hkeeps.ne_root, _, Function.update_self .., fun hclosed =>
      absurd (hstage.symm.trans hclosed) (by decide)⟩
  have hupdate := h.update_active hwriter hactive hholds rfl
  rwa [putWriter_self (show (s.putFile _ _).writers w = some writer from hwriter), update_same c.drafts rfl] at hupdate

theorem Simulates.synced (h : Simulates root s c) (hstep : step float_of root s (.synced w) = some s') :
    Simulates root s' (Board.after root c (.synced w : Event float_of)) := by
  obtain ⟨writer, hat, hstep⟩ := Option.bind_eq_some_iff.mp hstep
  cases hstep
  obtain ⟨hwriter, hstage⟩ := writerAt_eq_some hat
  have hactive : writer.active = true := by simp [Writer.active, hstage]
  have hkeeps := h.keeps hwriter hactive
  have hholds : Holds root (s.putFile writer.temporary (some writer.written)).files
      (some { writer with stage := .closed }) (c.drafts w) := by
    rw [holds_active rfl]
    exact ⟨hkeeps.drafted, hkeeps.temporary, hkeeps.ne_root, _, Function.update_self .., fun _ => rfl⟩
  have hupdate := h.update_active hwriter hactive hholds rfl
  rwa [update_same c.drafts rfl] at hupdate

/-- What was closed is what is published. -/
theorem Simulates.replaced (h : Simulates root s c) (hstep : step float_of root s (.replaced w) = some s') :
    Simulates root s' (Board.after root c (.replaced w : Event float_of)) := by
  obtain ⟨writer, hat, hstep⟩ := Option.bind_eq_some_iff.mp hstep
  obtain ⟨target, htarget, hstep⟩ := Option.bind_eq_some_iff.mp hstep
  obtain ⟨content, hcontent, hstep⟩ := Option.bind_eq_some_iff.mp hstep
  split at hstep
  · cases hstep
  next hroot =>
    cases hstep
    obtain ⟨hwriter, hstage⟩ := writerAt_eq_some hat
    have hactive : writer.active = true := by simp [Writer.active, hstage]
    have hkeeps := h.keeps hwriter hactive
    obtain ⟨i, target', rows, hrelative, htarget', hwritten, hdraft⟩ := hkeeps.drafted
    obtain rfl : target' = target := Except.ok.inj (htarget'.symm.trans (toOption_eq_some.mp htarget))
    obtain ⟨content', hcontent', hclosed⟩ := hkeeps.kept
    obtain rfl : content' = content := Option.some.inj (hcontent'.symm.trans hcontent)
    rw [if_neg hroot] at hdraft
    have hafter : Board.after root c (.replaced w : Event float_of) =
        { drafts := Function.update c.drafts w none, results := Function.update c.results target' (some rows) } := by
      show c.step (.publish w) = _
      rw [Board.step, hdraft]
    have hholds : Holds root (s.putFile writer.temporary none).files (some { writer with stage := .committed })
        (none : Option (Path × List (Row float_of))) := (holds_inactive rfl).mpr rfl
    have hupdate := h.update_active hwriter hactive hholds rfl
    have htemporary : ¬IsTemporary target' := not_isTemporary hrelative htarget'
    have hput := hupdate.putResult htemporary hroot (some rows)
    rw [Option.map_some, ← hwritten] at hput
    rw [hafter, hclosed hstage]
    exact hput

/-- A writer that has finished has no draft to drop. -/
theorem Simulates.drafts_of_inactive (h : Simulates root s c) (hwriter : s.writers w = some writer)
    (hinactive : writer.active = false) : c.drafts w = none := by
  have hholds := h.writers w
  rwa [hwriter, holds_inactive hinactive] at hholds

theorem Simulates.aborted (h : Simulates root s c) {unlinked : Bool} (hstep : step float_of root s (.aborted w unlinked) = some s') :
    Simulates root s' (Board.after root c (.aborted w unlinked : Event float_of)) := by
  obtain ⟨writer, hwriter, hstep⟩ := Option.bind_eq_some_iff.mp hstep
  have hafter : Board.after root c (.aborted w unlinked : Event float_of) =
      { c with drafts := Function.update c.drafts w none } := rfl
  rw [hafter]
  by_cases hfinished : writer.stage = .committed ∨ writer.stage = .aborted
  · simp only [if_pos hfinished] at hstep
    cases hstep
    have hinactive : writer.active = false := by rcases hfinished with h | h <;> simp [Writer.active, h]
    rw [update_same c.drafts (h.drafts_of_inactive hwriter hinactive)]
    exact h
  · simp only [if_neg hfinished] at hstep
    have hactive : writer.active = true := by
      rw [Writer.active]
      cases hstage : writer.stage <;> simp_all
    have hholds : ∀ content, Holds root (s.putFile writer.temporary content).files (some { writer with stage := .aborted })
        (none : Option (Path × List (Row float_of))) := fun _ => (holds_inactive rfl).mpr rfl
    cases unlinked with
    | true =>
        cases hstep
        exact h.update_active hwriter hactive (hholds none) rfl
    | false =>
        cases hstep
        have hupdate := h.update_active hwriter hactive (hholds (s.files writer.temporary)) rfl
        rwa [putFile_self] at hupdate

theorem Simulates.deleted (h : Simulates root s c) (hstep : step float_of root s (.deleted i) = some s') :
    Simulates root s' (Board.after root c (.deleted i : Event float_of)) := by
  obtain ⟨path, hplace, hstep⟩ := Option.bind_eq_some_iff.mp hstep
  cases hstep
  have hafter : Board.after root c (.deleted i : Event float_of) = { c with results := Function.update c.results path none } := by
    rw [Board.after, actAt, act, hplace, Option.map_some, Option.map_some, Act.map, hplace]
    rfl
  obtain ⟨relative, hrelative, hpath, hroot⟩ := place_eq_some hplace
  rw [hafter]
  exact h.putResult (not_isTemporary hrelative hpath) hroot none

theorem Simulates.crashed (h : Simulates root s c) (hstep : step float_of root s .crashed = some s') :
    Simulates root s' (Board.after root c (.crashed : Event float_of)) := by
  cases hstep
  exact ⟨h.files, h.root_file, fun _ => rfl, fun _ _ _ _ _ h => by cases h⟩

theorem Simulates.step (h : Simulates root s c) {e : Event float_of} (hstep : step float_of root s e = some s') :
    Simulates root s' (Board.after root c e) := by
  cases e with
  | opened w i random => exact h.opened hstep
  | appended w row => exact h.appended hstep
  | flushed w n => exact h.flushed hstep
  | synced w => exact h.synced hstep
  | replaced w => exact h.replaced hstep
  | aborted w unlinked => exact h.aborted hstep
  | deleted i => exact h.deleted hstep
  | crashed => exact h.crashed hstep

/-! ### Runs -/

theorem run_append (events : List (Event float_of)) (e : Event float_of) :
    run float_of root (events ++ [e]) = (run float_of root events).bind fun s => step float_of root s e := by
  rw [run, run, List.foldlM_append]
  simp only [List.foldlM_cons, List.foldlM_nil, bind_pure]
  rfl

/-- The files of every run are what its acts publish at their paths. -/
theorem simulates_run (events : List (Event float_of)) (h : run float_of root events = some s) :
    Simulates root s (Board.run (events.filterMap (actAt root))) := by
  induction events using List.reverseRecOn generalizing s with
  | nil =>
      cases h
      exact simulates_empty root
  | append_singleton events e ih =>
      rw [run_append] at h
      obtain ⟨before, hbefore, hstep⟩ := Option.bind_eq_some_iff.mp h
      have hafter := (ih hbefore).step hstep
      rw [Board.after] at hafter
      rw [List.filterMap_append]
      cases hact : actAt root e with
      | none => simpa [hact] using hafter
      | some a =>
          rw [hact] at hafter
          rw [List.filterMap_cons_some hact, List.filterMap_nil, Board.run_append]
          exact hafter

/-- The owners, hunts and queries of an event are among these. -/
def Event.Over (I : Set Identity) : Event float_of → Prop
  | .opened _ i _ | .deleted i => i ∈ I
  | _ => True

/-- What is loaded is what is published, or an error where nothing is. -/
def Loads (root : Path) (s : State) (i : Identity) (result : Option (List (Row float_of))) : Prop :=
  match result with
  | none => ∃ message, load float_of root s i = .error (.temporary_result_error message)
  | some rows => ∃ batch, load float_of root s i = .ok batch ∧ batch.rows = rows.map Row.sorted

theorem safe_segment_error {value : Text} {e : Raised} (h : safe_segment value = .error e) :
    ∃ message, e = .temporary_result_error message := by
  rw [safe_segment] at h
  split at h
  · cases h
    exact ⟨_, rfl⟩
  · cases h

theorem relative_path_error {e : Raised} (h : relative_path i = .error e) : ∃ message, e = .temporary_result_error message := by
  rw [relative_path] at h
  cases howner : safe_segment i.owner_user_id with
  | error e' =>
      rw [howner] at h
      cases h
      exact safe_segment_error howner
  | ok owner =>
      cases hhunt : safe_segment i.hunt_id with
      | error e' =>
          rw [howner, hhunt] at h
          cases h
          exact safe_segment_error hhunt
      | ok hunt =>
          cases hquery : safe_segment i.query_id with
          | error e' =>
              rw [howner, hhunt, hquery] at h
              cases h
              exact safe_segment_error hquery
          | ok query =>
              rw [howner, hhunt, hquery] at h
              cases h

theorem load_rows_missing (hpath : store_path root relative = .ok path) (hfile : files path = none) :
    load_rows float_of files root relative none none = failure "temporary result batch is missing" := by
  rw [load_rows, hpath, ok_bind, hfile]

/-- What is published at the place of an owner, hunt and query is loaded for them. -/
theorem Simulates.loads (h : Simulates root s c) (hplace : place root i = some path) : Loads root s i (c.results path) := by
  obtain ⟨relative, hrelative, hpath, -⟩ := place_eq_some hplace
  have hfile := h.files path (not_isTemporary hrelative hpath)
  have hload : load float_of root s i = load_rows float_of s.files root relative none none := by
    rw [load, hrelative, ok_bind]
  cases hresult : c.results path with
  | none =>
      rw [hresult] at hfile
      exact ⟨_, hload.trans (load_rows_missing hpath hfile)⟩
  | some rows =>
      rw [hresult] at hfile
      obtain ⟨batch, hbatch, hrows⟩ := load_rows_encode hpath hfile
      exact ⟨batch, hload.trans hbatch, hrows⟩

/-- Nothing is loaded for those that have no place. -/
theorem Simulates.loads_none (h : Simulates root s c) (hplace : place root i = none) :
    Loads root s i (none : Option (List (Row float_of))) := by
  cases hrelative : relative_path i with
  | error e =>
      obtain ⟨message, rfl⟩ := relative_path_error hrelative
      exact ⟨message, by rw [load, hrelative, error_bind]⟩
  | ok relative =>
      have hload : load float_of root s i = load_rows float_of s.files root relative none none := by
        rw [load, hrelative, ok_bind]
      cases hpath : store_path root relative with
      | error e =>
          have hescapes := hpath
          rw [store_path] at hescapes
          split at hescapes
          · cases hescapes
          · cases hescapes
            exact ⟨_, by rw [hload, load_rows, hpath, error_bind]⟩
      | ok path =>
          rw [place_of_eq_ok hrelative hpath] at hplace
          split at hplace
          next hroot =>
            subst hroot
            exact ⟨_, hload.trans (load_rows_missing hpath h.root_file)⟩
          next => cases hplace

/-- Those of some owners, hunts and queries that have a place. -/
def placed (root : Path) (I : Set Identity) : Set Identity := {i | i ∈ I ∧ (place root i).isSome}

theorem act_over {I : Set Identity} {e : Event float_of} (he : e.Over I) {a : Act Identity (Row float_of)}
    (ha : act root e = some a) : a.Over (placed root I) := by
  cases e with
  | opened w i random =>
      obtain ⟨path, hplace, rfl⟩ := Option.map_eq_some_iff.mp ha
      exact ⟨he, by rw [hplace]; rfl⟩
  | deleted i =>
      obtain ⟨path, hplace, rfl⟩ := Option.map_eq_some_iff.mp ha
      exact ⟨he, by rw [hplace]; rfl⟩
  | flushed w n => cases ha
  | synced w => cases ha
  | _ =>
      cases ha
      trivial

/-- No two of these have one file. -/
def Apart (root : Path) (I : Set Identity) : Prop :=
  ∀ i ∈ I, ∀ j ∈ I, ∀ path, place root i = some path → place root j = some path → i = j

theorem Apart.injOn {I : Set Identity} (h : Apart root I) :
    Set.InjOn (fun i => (place root i).getD []) (placed root I) := by
  intro i ⟨hi, hsome⟩ j ⟨hj, hsome'⟩ heq
  obtain ⟨path, hplace⟩ := Option.isSome_iff_exists.mp hsome
  obtain ⟨path', hplace'⟩ := Option.isSome_iff_exists.mp hsome'
  simp only [hplace, hplace', Option.getD_some] at heq
  exact h i hi j hj path hplace (heq ▸ hplace')

/-- In a run over results that are apart, each is loaded as it was published. -/
theorem loads_published {I : Set Identity} (hapart : Apart root I) {events : List (Event float_of)}
    (hrun : run float_of root events = some s) (hover : ∀ e ∈ events, e.Over I) (hi : i ∈ I) :
    Loads root s i (published root events i) := by
  have hsimulates := simulates_run events hrun
  have hacts : ∀ a ∈ events.filterMap (act root), a.Over (placed root I) := by
    intro a ha
    obtain ⟨e, he, ha⟩ := List.mem_filterMap.mp ha
    exact act_over (hover e he) ha
  cases hplace : place root i with
  | none =>
      have hnone : published root events i = none := Publication.results_eq_none hacts fun hmem => by
        rw [placed, Set.mem_setOf_eq, hplace] at hmem
        cases hmem.2
      rw [hnone]
      exact hsimulates.loads_none hplace
  | some path =>
      have hloads := hsimulates.loads hplace
      have hagree := Publication.results_agree_iff.mpr hapart.injOn _ hacts i ⟨hi, by rw [hplace]; rfl⟩
      have hat : events.filterMap (actAt root) =
          (events.filterMap (act root)).map (Act.map fun i => (place root i).getD []) := by
        rw [List.map_filterMap]
        rfl
      simp only [← hat, hplace, Option.getD_some] at hagree
      rwa [hagree] at hloads

/-! ### Results that are not apart -/

theorem length_temporaryOf (hne : target ≠ []) (random : Text) : (temporaryOf target random).length = target.length := by
  have hpos := List.length_pos_iff.mpr hne
  rw [temporaryOf, List.length_append, List.length_dropLast, List.length_singleton]
  omega

theorem step_synced (hwriter : s.writers w = some writer) (hstage : writer.stage = .streaming) :
    ∃ s', step float_of root s (.synced w) = some s' ∧ s'.writers w = some { writer with stage := .closed } ∧
      s'.files writer.temporary = some writer.written := by
  have hat : s.writerAt w .streaming = some writer := by rw [State.writerAt, hwriter, Option.filter_some, hstage]; rfl
  rw [step, hat]
  exact ⟨_, rfl, Function.update_self .., Function.update_self ..⟩

theorem step_replaced {content : Text} (hwriter : s.writers w = some writer) (hstage : writer.stage = .closed)
    (htarget : store_path root writer.relative = .ok target) (hcontent : s.files writer.temporary = some content)
    (hroot : target ≠ root) : ∃ s', step float_of root s (.replaced w) = some s' := by
  have hat : s.writerAt w .closed = some writer := by rw [State.writerAt, hwriter, Option.filter_some, hstage]; rfl
  rw [step, hat]
  simp only [htarget, Except.toOption, hcontent, Option.bind_eq_bind, Option.bind_some, if_neg hroot]
  exact ⟨_, rfl⟩

/-- Nothing that is needed to publish for an owner, hunt and query that has a place can be missing at first. -/
theorem exists_run_publish (hplace : place root i = some path) :
    ∃ s, run float_of root [.opened 0 i [], .synced 0, .replaced 0] = some s := by
  obtain ⟨relative, hrelative, hpath, hroot⟩ := place_eq_some hplace
  obtain ⟨names, rfl⟩ := (store_path_eq_ok hpath).2
  have hnames : names ≠ [] := by
    rintro rfl
    exact hroot (List.append_nil root)
  have htemporary : temporaryOf (root ++ names) [] ≠ root := by
    intro heq
    have hlength := congrArg List.length heq
    rw [length_temporaryOf (by simp [hnames]), List.length_append] at hlength
    exact hnames (List.length_eq_zero_iff.mp (by omega))
  have hopened : ∃ s, step float_of root .empty (.opened 0 i []) = some s ∧
      s.writers 0 = some { relative, temporary := temporaryOf (root ++ names) [] } := by
    rw [step, hrelative]
    simp only [hpath]
    rw [if_neg]
    · exact ⟨_, rfl, rfl⟩
    · simpa [State.empty] using htemporary
  obtain ⟨s₁, hopened, hwriter₁⟩ := hopened
  obtain ⟨s₂, hsynced, hwriter₂, hfile⟩ := step_synced hwriter₁ rfl
  obtain ⟨s₃, hreplaced⟩ := step_replaced hwriter₂ rfl hpath hfile hroot
  refine ⟨s₃, ?_⟩
  rw [run, List.foldlM_cons, hopened, Option.bind_eq_bind, Option.bind_some, List.foldlM_cons, hsynced, Option.bind_eq_bind,
    Option.bind_some, List.foldlM_cons, hreplaced]
  rfl

/-- Results that are loaded as they were published in every run are apart. -/
theorem apart_of_loads {I : Set Identity} (h : ∀ (events : List (Event float_of)) s, run float_of root events = some s →
    (∀ e ∈ events, e.Over I) → ∀ i ∈ I, Loads root s i (published root events i)) : Apart root I := by
  intro i hi j hj path hplace hplace'
  by_contra hne
  have hpublish : ∃ s, run float_of root [.opened 0 i [], .synced 0, .replaced 0] = some s := exists_run_publish hplace
  obtain ⟨s, hrun⟩ := hpublish
  have hover : ∀ e ∈ ([.opened 0 i [], .synced 0, .replaced 0] : List (Event float_of)), e.Over I := by
    simp only [List.forall_mem_cons]
    exact ⟨hi, trivial, trivial, nofun⟩
  have hloads := h _ s hrun hover j hj
  have hacts : [.opened 0 i [], .synced 0, .replaced 0].filterMap (act root) =
      ([.start 0 i, .publish 0] : List (Act Identity (Row float_of))) := by
    have hact : act root (.opened 0 i [] : Event float_of) = some (.start 0 i) := by rw [act, hplace]; rfl
    rw [List.filterMap_cons_some hact]
    rfl
  have hnone : published root ([.opened 0 i [], .synced 0, .replaced 0] : List (Event float_of)) j = none := by
    rw [published, hacts]
    simp [Board.run, Board.step, Board.empty, Ne.symm hne]
  have hsome := (simulates_run _ hrun).loads hplace'
  have hacts' : [.opened 0 i [], .synced 0, .replaced 0].filterMap (actAt root) =
      ([.start 0 path, .publish 0] : List (Act Path (Row float_of))) := by
    have hact : actAt root (.opened 0 i [] : Event float_of) = some (.start 0 path) := by
      rw [actAt, act, hplace, Option.map_some, Option.map_some, Act.map, hplace]
      rfl
    rw [List.filterMap_cons_some hact]
    rfl
  rw [hacts'] at hsome
  rw [hnone] at hloads
  obtain ⟨message, herror⟩ := hloads
  have hboard : (Board.run ([.start 0 path, .publish 0] : List (Act Path (Row float_of)))).results path = some [] := by
    simp [Board.run, Board.step, Board.empty]
  rw [hboard] at hsome
  obtain ⟨batch, hok, -⟩ := hsome
  rw [herror] at hok
  cases hok

/-- **Temporary results.** In every run over some owners, hunts and queries, whatever writers are open, fail or are
left behind, each loads exactly what was published for it, if and only if no two of them have one file. -/
theorem loads_published_iff (float_of : List Char → Json) (root : Path) (I : Set Identity) :
    (∀ (events : List (Event float_of)) s, run float_of root events = some s → (∀ e ∈ events, e.Over I) →
      ∀ i ∈ I, Loads root s i (published root events i)) ↔ Apart root I :=
  ⟨apart_of_loads, fun hapart _ _ hrun hover _ hi => loads_published hapart hrun hover hi⟩

/-- A row. -/
def sampleRow : Row fun ds => .float (String.ofList ds) := ⟨[("user", .string "alice")], by decide, trivial, trivial⟩

/-- Two owners, one of whose names has a blank where the other has an underscore. -/
def blankOwner : Identity := ⟨"a b".toList, "h".toList, "q".toList⟩

def underscoreOwner : Identity := ⟨"a_b".toList, "h".toList, "q".toList⟩

/-- What the one owner's query has found is loaded for the other owner. -/
theorem owners_confused : ∃ s, blankOwner ≠ underscoreOwner ∧
    run (fun ds => .float (String.ofList ds)) ["results".toList]
      [.opened 0 blankOwner [], .appended 0 sampleRow, .synced 0, .replaced 0] = some s ∧
    ((load (fun ds => .float (String.ofList ds)) ["results".toList] s underscoreOwner).toOption.map (·.rows)) =
      some [[("user", .string "alice")]] :=
  ⟨_, by decide, rfl, rfl⟩

end TemporaryResults

end ThreatHunting
